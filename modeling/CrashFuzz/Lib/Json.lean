import CrashFuzz.Lib.Decimal

/-!
JSON, read one character at a time.

* `Value`: what a JSON text stands for. A string is the list of its code
  points, where an escape may leave a surrogate without its other half.
* `State`, `step`: the parser between two characters, with the open arrays and
  objects on a stack.
* `run`, `parse`: reading a text; reading on is `run_append`.
* `Scalar`, `field`: members printed without escapes. `run_fields` reads them
  back when their texts are `Plain`.
* `Confined`: within `n` characters no string longer than `n` comes about, so
  a text that is not plain is not read as itself (`Confined.run_of_not_plain`).
-/

namespace Json

open Decimal (integerChars)

/-- A JSON value. Numbers out of range are none; of two members of one name
the first in the list counts. -/
inductive Value where
  | null
  | bool (b : Bool)
  | number (x : Option ℚ)
  | string (codes : List ℕ)
  | array (items : List Value)
  | object (members : List (List ℕ × Value))

/-- An array or object that is not closed yet. -/
inductive Frame where
  | array (items : List Value)
  /-- An object between two members. -/
  | object (members : List (List ℕ × Value))
  /-- An object within the member `key`. -/
  | member (members : List (List ℕ × Value)) (key : List ℕ)

/-- Where in a number literal the parser is. -/
inductive Phase where
  | minus | zero | whole | point | fraction | exponent | exponentSign | exponentDigits
  deriving DecidableEq, Repr

inductive Word where
  | null | true | false
  deriving DecidableEq, Repr

def Word.text : Word → List Char
  | .null => ['n', 'u', 'l', 'l']
  | .true => ['t', 'r', 'u', 'e']
  | .false => ['f', 'a', 'l', 's', 'e']

def Word.value : Word → Value
  | .null => .null
  | .true => .bool Bool.true
  | .false => .bool Bool.false

/-- What the parser is about to read. The code points of a string are kept last
one first. -/
inductive Mode where
  /-- A value, or right after an opening bracket its closing one. -/
  | value (first : Bool)
  /-- The name of a member, or right after an opening brace its closing one. -/
  | key (first : Bool)
  | colon
  /-- What follows an item or a member. -/
  | after
  /-- Nothing, the text is complete. -/
  | done (v : Value)
  | string (codes : List ℕ)
  | escape (codes : List ℕ)
  /-- The hexadecimal digits of an escape, of which some were read. -/
  | hex (codes : List ℕ) (read : ℕ) (unit : ℕ)
  | number (phase : Phase) (d : Decimal)
  | word (w : Word) (read : ℕ)

/-- The parser between two characters. -/
structure State where
  stack : List Frame
  mode : Mode

/-- White space between two tokens. -/
def isSpace (c : Char) : Bool := c = ' ' || c = '\t' || c = '\n' || c = '\r'

/-- After a whole value. -/
def complete (stack : List Frame) (v : Value) : State :=
  match stack with
  | [] => ⟨[], .done v⟩
  | .array items :: rest => ⟨.array (items ++ [v]) :: rest, .after⟩
  | .member members key :: rest => ⟨.object ((key, v) :: members) :: rest, .after⟩
  | .object members :: rest => ⟨.object members :: rest, .after⟩

/-- After the closing quote: between members the string was a name. -/
def closeString (stack : List Frame) (codes : List ℕ) : State :=
  match stack with
  | .object members :: rest => ⟨.member members codes.reverse :: rest, .colon⟩
  | _ => complete stack (.string codes.reverse)

/-- The first character of a value. -/
def beginValue (stack : List Frame) (c : Char) : Option State :=
  if c = '"' then some ⟨stack, .string []⟩
  else if c = '[' then some ⟨.array [] :: stack, .value true⟩
  else if c = '\x7b' then some ⟨.object [] :: stack, .key true⟩
  else if c = '-' then some ⟨stack, .number .minus (.empty true)⟩
  else if c = '0' then some ⟨stack, .number .zero ((Decimal.empty false).digit c)⟩
  else if c.isDigit then some ⟨stack, .number .whole ((Decimal.empty false).digit c)⟩
  else if c = 'n' then some ⟨stack, .word .null 1⟩
  else if c = 't' then some ⟨stack, .word .true 1⟩
  else if c = 'f' then some ⟨stack, .word .false 1⟩
  else none

/-- The character after a whole value. -/
def afterValue (s : State) (c : Char) : Option State :=
  if isSpace c then some s
  else
    match s.stack with
    | .array items :: rest =>
        if c = ',' then some ⟨s.stack, .value false⟩
        else if c = ']' then some (complete rest (.array items))
        else none
    | .object members :: rest =>
        if c = ',' then some ⟨s.stack, .key false⟩
        else if c = '\x7d' then some (complete rest (.object members))
        else none
    | _ => none

/-- Whether a number literal may end here. -/
def Phase.accepts : Phase → Bool
  | .zero | .whole | .fraction | .exponentDigits => true
  | .minus | .point | .exponent | .exponentSign => false

/-- One more character of a number literal. -/
def nextPhase (phase : Phase) (d : Decimal) (c : Char) : Option (Phase × Decimal) :=
  match phase with
  | .minus =>
      if c = '0' then some (.zero, d.digit c)
      else if c.isDigit then some (.whole, d.digit c)
      else none
  | .zero =>
      if c = '.' then some (.point, d)
      else if c = 'e' || c = 'E' then some (.exponent, d)
      else none
  | .whole =>
      if c.isDigit then some (.whole, d.digit c)
      else if c = '.' then some (.point, d)
      else if c = 'e' || c = 'E' then some (.exponent, d)
      else none
  | .point => if c.isDigit then some (.fraction, d.fraction c) else none
  | .fraction =>
      if c.isDigit then some (.fraction, d.fraction c)
      else if c = 'e' || c = 'E' then some (.exponent, d)
      else none
  | .exponent =>
      if c.isDigit then some (.exponentDigits, d.exponentDigit c)
      else if c = '+' || c = '-' then some (.exponentSign, d.exponentSign c)
      else none
  | .exponentSign | .exponentDigits =>
      if c.isDigit then some (.exponentDigits, d.exponentDigit c) else none

/-- The character an escape of one letter stands for. -/
def unescape (c : Char) : Option ℕ :=
  if c = '"' || c = '\\' || c = '/' then some c.toNat
  else if c = 'b' then some 8
  else if c = 'f' then some 12
  else if c = 'n' then some 10
  else if c = 'r' then some 13
  else if c = 't' then some 9
  else none

def hexDigit (c : Char) : Option ℕ :=
  if c.isDigit then some (c.toNat - 48)
  else if 'a' ≤ c && c ≤ 'f' then some (c.toNat - 87)
  else if 'A' ≤ c && c ≤ 'F' then some (c.toNat - 55)
  else none

/-- One more 16-bit unit of a string: two halves of a surrogate pair become one
code point. -/
def pushUnit (codes : List ℕ) (unit : ℕ) : List ℕ :=
  match codes with
  | high :: rest =>
      if 0xd800 ≤ high ∧ high < 0xdc00 ∧ 0xdc00 ≤ unit ∧ unit < 0xe000 then
        (0x10000 + (high - 0xd800) * 0x400 + (unit - 0xdc00)) :: rest
      else unit :: codes
  | [] => [unit]

/-- Reads one character. -/
def step (s : State) (c : Char) : Option State :=
  match s.mode with
  | .value first =>
      if isSpace c then some s
      else if first && c = ']' then
        match s.stack with
        | .array items :: rest => some (complete rest (.array items))
        | _ => none
      else beginValue s.stack c
  | .key first =>
      if isSpace c then some s
      else if c = '"' then some ⟨s.stack, .string []⟩
      else if first && c = '\x7d' then afterValue s c
      else none
  | .colon =>
      if isSpace c then some s
      else if c = ':' then some ⟨s.stack, .value false⟩
      else none
  | .after | .done _ => afterValue s c
  | .string codes =>
      if c = '"' then some (closeString s.stack codes)
      else if c = '\\' then some ⟨s.stack, .escape codes⟩
      else if 0x20 ≤ c.toNat then some ⟨s.stack, .string (c.toNat :: codes)⟩
      else none
  | .escape codes =>
      if c = 'u' then some ⟨s.stack, .hex codes 0 0⟩
      else (unescape c).map fun code => ⟨s.stack, .string (code :: codes)⟩
  | .hex codes read unit =>
      (hexDigit c).map fun d =>
        if read = 3 then ⟨s.stack, .string (pushUnit codes (16 * unit + d))⟩
        else ⟨s.stack, .hex codes (read + 1) (16 * unit + d)⟩
  | .number phase d =>
      match nextPhase phase d c with
      | some (phase, d) => some ⟨s.stack, .number phase d⟩
      | none => if phase.accepts then afterValue (complete s.stack (.number d.number)) c else none
  | .word w read =>
      if w.text[read]? = some c then
        some (if read + 1 = w.text.length then complete s.stack w.value
          else ⟨s.stack, .word w (read + 1)⟩)
      else none

/-- Reads a text. -/
def run (s : State) (cs : List Char) : Option State := cs.foldlM step s

/-- The value, when the text may end here. -/
def finish (s : State) : Option Value :=
  match s.mode with
  | .done v => some v
  | .number phase d => if phase.accepts && s.stack.isEmpty then some (.number d.number) else none
  | _ => none

/-- The value of a JSON text. -/
def parse (cs : List Char) : Option Value := (run ⟨[], .value false⟩ cs).bind finish

/-! ### Reading on -/

@[simp] lemma run_nil (s : State) : run s [] = some s := rfl

@[simp] lemma run_cons (s : State) (c : Char) (cs : List Char) :
    run s (c :: cs) = (step s c).bind (run · cs) := by
  rw [run, List.foldlM_cons]
  rfl

lemma run_append (s : State) (xs ys : List Char) :
    run s (xs ++ ys) = (run s xs).bind (run · ys) := by
  rw [run, List.foldlM_append]
  rfl

/-- The code points of a text. -/
def codesOf (cs : List Char) : List ℕ := cs.map Char.toNat

/-- Characters that stand for themselves between quotes. -/
def Plain (cs : List Char) : Prop := ∀ c ∈ cs, 0x20 ≤ c.toNat ∧ c ≠ '"' ∧ c ≠ '\\'

instance : DecidablePred Plain := fun cs => List.decidableBAll _ cs

lemma step_plain {stack : List Frame} {codes : List ℕ} {c : Char}
    (h : 0x20 ≤ c.toNat ∧ c ≠ '"' ∧ c ≠ '\\') :
    step ⟨stack, .string codes⟩ c = some ⟨stack, .string (c.toNat :: codes)⟩ := by
  simp only [step, if_neg h.2.1, if_neg h.2.2, if_pos h.1]

/-- A plain text is read as itself. -/
lemma run_plain {stack : List Frame} {codes : List ℕ} {cs : List Char} (h : Plain cs) :
    run ⟨stack, .string codes⟩ cs = some ⟨stack, .string ((codesOf cs).reverse ++ codes)⟩ := by
  induction cs generalizing codes with
  | nil => rfl
  | cons c cs ih =>
      have hcs : Plain cs := fun d hd => h d (List.mem_cons_of_mem c hd)
      rw [run_cons, step_plain (h c List.mem_cons_self), Option.bind_some, ih hcs]
      simp [codesOf]

/-! ### Numbers -/

/-- The rest of a whole number. -/
lemma run_digits {stack : List Frame} {d : Decimal} {cs : List Char}
    (h : ∀ c ∈ cs, c.isDigit = true) :
    run ⟨stack, .number .whole d⟩ cs = some ⟨stack, .number .whole (d.digits cs)⟩ := by
  induction cs generalizing d with
  | nil => rfl
  | cons c cs ih =>
      have hc := h c List.mem_cons_self
      have hstep : step ⟨stack, .number .whole d⟩ c = some ⟨stack, .number .whole (d.digit c)⟩ := by
        simp only [step, nextPhase, if_pos hc]
      rw [run_cons, hstep, Decimal.digits_cons, Option.bind_some,
        ih fun c hc => h c (List.mem_cons_of_mem _ hc)]

/-- What is read of a number before it ends. -/
def IsWhole (s : State) (stack : List Frame) (d : Decimal) : Prop :=
  s = ⟨stack, .number .zero d⟩ ∨ s = ⟨stack, .number .whole d⟩

/-- After such a number comes what comes after a value. -/
lemma IsWhole.step_eq {s : State} {stack : List Frame} {d : Decimal} (h : IsWhole s stack d)
    {c : Char} (hc : c.isDigit = false ∧ c ≠ '.' ∧ c ≠ 'e' ∧ c ≠ 'E') :
    step s c = afterValue (complete stack (.number d.number)) c := by
  obtain ⟨hdigit, hpoint, he, hE⟩ := hc
  rcases h with rfl | rfl
  · simp [step, nextPhase, Phase.accepts, hpoint, he, hE]
  · simp [step, nextPhase, Phase.accepts, hdigit, hpoint, he, hE]

lemma exists_cons_toDigits {n : ℕ} (h : 0 < n) :
    ∃ c cs, Nat.toDigits 10 n = c :: cs ∧ c ≠ '0' := by
  induction n using Nat.strong_induction_on with
  | _ n ih =>
    rcases Nat.lt_or_ge n 10 with hlt | hge
    · refine ⟨n.digitChar, [], Nat.toDigits_of_lt_base hlt, ?_⟩
      interval_cases n <;> decide
    · obtain ⟨c, cs, hcs, hc⟩ := ih (n / 10) (by omega) (by omega)
      rw [Nat.toDigits_of_base_le (by omega) hge, hcs]
      exact ⟨c, _, rfl, hc⟩

/-- Where the digits of a number begin, after its sign. -/
def beginNumber (stack : List Frame) (negative : Bool) : State :=
  if negative then ⟨stack, .number .minus (.empty true)⟩ else ⟨stack, .value false⟩

lemma step_beginNumber_zero (stack : List Frame) (negative : Bool) :
    step (beginNumber stack negative) '0' =
      some ⟨stack, .number .zero ((Decimal.empty negative).digit '0')⟩ := by
  cases negative <;> rfl

lemma step_beginNumber {stack : List Frame} {negative : Bool} {c : Char} (h : c.isDigit = true)
    (hc : c ≠ '0') :
    step (beginNumber stack negative) c =
      some ⟨stack, .number .whole ((Decimal.empty negative).digit c)⟩ := by
  have hne : ∀ x : Char, x.isDigit = false → c ≠ x := by
    rintro x hx rfl
    exact absurd h (by simp [hx])
  cases negative with
  | false =>
      have hspace : isSpace c = false := by
        simp only [isSpace, Bool.or_eq_false_iff, decide_eq_false_iff_not]
        exact ⟨⟨⟨hne _ rfl, hne _ rfl⟩, hne _ rfl⟩, hne _ rfl⟩
      simp [beginNumber, step, beginValue, hspace, h, hc, hne '"' rfl, hne '[' rfl,
        hne '\x7b' rfl, hne '-' rfl]
  | true => simp [beginNumber, step, nextPhase, h, hc]

/-- The digits of a natural number are read as that number. -/
lemma run_toDigits (stack : List Frame) (negative : Bool) (n : ℕ) :
    ∃ s, run (beginNumber stack negative) (Nat.toDigits 10 n) = some s ∧
      IsWhole s stack { Decimal.empty negative with mantissa := n } := by
  have hdigits := Decimal.digits_toDigits negative n
  rcases Nat.eq_zero_or_pos n with rfl | hpos
  · refine ⟨_, ?_, .inl rfl⟩
    rw [Nat.toDigits_zero, run_cons, step_beginNumber_zero]
    rfl
  · obtain ⟨c, cs, hcs, hc⟩ := exists_cons_toDigits hpos
    have hall : ∀ d ∈ c :: cs, d.isDigit = true := fun d hd => Decimal.isDigit_toDigits (hcs ▸ hd)
    rw [hcs] at hdigits ⊢
    refine ⟨_, ?_, .inr rfl⟩
    rw [run_cons, step_beginNumber (hall c List.mem_cons_self) hc, Option.bind_some,
      run_digits fun d hd => hall d (List.mem_cons_of_mem c hd), ← hdigits, Decimal.digits_cons]

/-- An integer is read as the number next to it, once its literal ends. -/
lemma run_integer (stack : List Frame) (n : ℤ) {c : Char}
    (hc : c.isDigit = false ∧ c ≠ '.' ∧ c ≠ 'e' ∧ c ≠ 'E') :
    run ⟨stack, .value false⟩ (integerChars n ++ [c]) =
      afterValue (complete stack (.number (Binary64.round n))) c := by
  obtain ⟨s, hrun, hwhole⟩ := run_toDigits stack (n < 0) n.natAbs
  have hbegin : run ⟨stack, .value false⟩ (integerChars n) = some s := by
    rw [← hrun, integerChars]
    by_cases hneg : n < 0
    · simp only [hneg, if_true, run_cons, beginNumber, decide_true]
      rfl
    · simp only [hneg, if_false, beginNumber, decide_false, Bool.false_eq_true]
  rw [run_append, hbegin, Option.bind_some, run_cons, hwhole.step_eq hc, Decimal.number_natAbs]
  cases afterValue (complete stack (.number (Binary64.round n))) c <;> rfl

/-! ### Members -/

/-- What a record is printed with: integers, and texts without escapes. -/
inductive Scalar where
  | integer (n : ℤ)
  | text (cs : List Char)

/-- As it is printed. -/
def Scalar.chars : Scalar → List Char
  | integer n => integerChars n
  | text cs => '"' :: cs ++ ['"']

/-- What it is read as. -/
def Scalar.value : Scalar → Value
  | integer n => .number (Binary64.round n)
  | text cs => .string (codesOf cs)

/-- Any number, or a plain text. -/
def Scalar.Readable : Scalar → Prop
  | integer _ => True
  | text cs => Plain cs

/-- A member and the comma after it. -/
def field (name : String) (v : Scalar) : List Char :=
  '"' :: name.toList ++ '"' :: ':' :: v.chars ++ [',']

/-- The code points of a name. -/
def keyOf (name : String) : List ℕ := codesOf name.toList

/-- The members of some fields, the last one first. -/
def membersOf (fields : List (String × Scalar)) : List (List ℕ × Value) :=
  (fields.map fun f => (keyOf f.1, f.2.value)).reverse

section Members

variable {rest : List Frame} {members : List (List ℕ × Value)} {key codes : List ℕ} {first : Bool}

lemma codesOf_reverse_append (cs : List Char) :
    ((codesOf cs).reverse ++ []).reverse = codesOf cs := by
  rw [List.append_nil, List.reverse_reverse]

lemma step_quote (stack : List Frame) (codes : List ℕ) :
    step ⟨stack, .string codes⟩ '"' = some (closeString stack codes) := rfl

lemma closeString_member : closeString (.member members key :: rest) codes =
    ⟨.object ((key, .string codes.reverse) :: members) :: rest, .after⟩ := rfl

/-- A name and its colon. -/
lemma run_name {name : String} (h : Plain name.toList) :
    run ⟨.object members :: rest, .key first⟩ ('"' :: name.toList ++ ['"', ':']) =
      some ⟨.member members (keyOf name) :: rest, .value false⟩ := by
  have hopen : step ⟨.object members :: rest, .key first⟩ '"' =
      some ⟨.object members :: rest, .string []⟩ := rfl
  rw [List.cons_append, run_cons, hopen, Option.bind_some, run_append, run_plain h,
    Option.bind_some, run_cons, step_quote, closeString, codesOf_reverse_append]
  rfl

/-- A text up to its closing quote. -/
lemma run_text {cs : List Char} (h : Plain cs) :
    run ⟨.member members key :: rest, .value false⟩ ('"' :: cs ++ ['"']) =
      some ⟨.object ((key, .string (codesOf cs)) :: members) :: rest, .after⟩ := by
  have hopen : step ⟨.member members key :: rest, .value false⟩ '"' =
      some ⟨.member members key :: rest, .string []⟩ := rfl
  rw [List.cons_append, run_cons, hopen, Option.bind_some, run_append, run_plain h,
    Option.bind_some, run_cons, step_quote, closeString_member, codesOf_reverse_append]
  rfl

/-- A value and the comma after it. -/
lemma run_scalar {v : Scalar} (h : v.Readable) :
    run ⟨.member members key :: rest, .value false⟩ (v.chars ++ [',']) =
      some ⟨.object ((key, v.value) :: members) :: rest, .key false⟩ := by
  cases v with
  | integer n => exact run_integer _ n (by decide)
  | text cs =>
      rw [Scalar.chars, run_append, run_text h]
      rfl

lemma run_field {name : String} {v : Scalar} (hname : Plain name.toList) (hv : v.Readable) :
    run ⟨.object members :: rest, .key first⟩ (field name v) =
      some ⟨.object ((keyOf name, v.value) :: members) :: rest, .key false⟩ := by
  have hsplit : field name v = ('"' :: name.toList ++ ['"', ':']) ++ (v.chars ++ [',']) := by
    simp [field]
  rw [hsplit, run_append, run_name hname, Option.bind_some, run_scalar hv]

/-- The end of a text and the name of the next one. -/
lemma run_next_text {name : String} (h : Plain name.toList) :
    run ⟨.member members key :: rest, .string codes⟩
        ('"' :: ',' :: ('"' :: name.toList ++ ['"', ':'] ++ ['"'])) =
      some ⟨.member ((key, .string codes.reverse) :: members) (keyOf name) :: rest,
        .string []⟩ := by
  have hnext : step ⟨.object ((key, .string codes.reverse) :: members) :: rest, .after⟩ ',' =
      some ⟨.object ((key, .string codes.reverse) :: members) :: rest, .key false⟩ := rfl
  rw [run_cons, step_quote, closeString_member, Option.bind_some, run_cons, hnext,
    Option.bind_some, run_append, run_name h]
  rfl

/-- **Members are read as they were printed.** -/
lemma run_fields {fields : List (String × Scalar)}
    (h : ∀ f ∈ fields, Plain f.1.toList ∧ f.2.Readable) :
    run ⟨.object members :: rest, .key false⟩ (fields.flatMap fun f => field f.1 f.2) =
      some ⟨.object (membersOf fields ++ members) :: rest, .key false⟩ := by
  induction fields generalizing members with
  | nil => rfl
  | cons f fields ih =>
      obtain ⟨hname, hv⟩ := h f List.mem_cons_self
      rw [List.flatMap_cons, run_append, run_field hname hv, Option.bind_some,
        ih fun g hg => h g (List.mem_cons_of_mem f hg)]
      simp [membersOf]

/-- The last member, a text, and the end of the object. -/
lemma run_last {name : String} {cs : List Char} (hname : Plain name.toList) (hcs : Plain cs) :
    run ⟨.object members :: rest, .key first⟩
        (('"' :: name.toList ++ ['"', ':']) ++ ('"' :: cs ++ ['"']) ++ ['\x7d']) =
      some (complete rest (.object ((keyOf name, .string (codesOf cs)) :: members))) := by
  rw [run_append, run_append, run_name hname, Option.bind_some, run_text hcs]
  rfl

/-- Only the outermost object ends a text. -/
lemma finish_complete {v w : Value} (h : finish (complete rest v) = some w) :
    rest = [] ∧ w = v := by
  cases rest with
  | nil => exact ⟨rfl, (Option.some.inj h).symm⟩
  | cons f rest => cases f <;> exact absurd h (by simp [complete, finish])

/-! ### Where a string may end -/

/-- The first letter of a name: nothing that may follow a value. -/
def IsLetter (c : Char) : Prop := 'a' ≤ c ∧ c ≤ 'z'

instance (c : Char) : Decidable (IsLetter c) := inferInstanceAs (Decidable (_ ∧ _))

lemma IsLetter.ne {c x : Char} (h : IsLetter c) (hx : ¬ IsLetter x) : c ≠ x :=
  fun he => hx (he ▸ h)

lemma afterValue_letter {s : State} {c : Char} (h : IsLetter c) : afterValue s c = none := by
  have hspace : isSpace c = false := by
    simp only [isSpace, Bool.or_eq_false_iff, decide_eq_false_iff_not]
    exact ⟨⟨⟨h.ne (by decide), h.ne (by decide)⟩, h.ne (by decide)⟩, h.ne (by decide)⟩
  have hcomma : c ≠ ',' := h.ne (by decide)
  have hbracket : c ≠ ']' := h.ne (by decide)
  have hbrace : c ≠ '\x7d' := h.ne (by decide)
  obtain ⟨stack, mode⟩ := s
  rcases stack with _ | ⟨f, stack⟩
  · simp [afterValue, hspace]
  · cases f <;> simp [afterValue, hspace, hcomma, hbracket, hbrace]

/-- No letter follows the end of a string. -/
lemma step_closeString_letter {stack : List Frame} {c : Char} (h : IsLetter c) :
    step (closeString stack codes) c = none := by
  have hspace : isSpace c = false := by
    simp only [isSpace, Bool.or_eq_false_iff, decide_eq_false_iff_not]
    exact ⟨⟨⟨h.ne (by decide), h.ne (by decide)⟩, h.ne (by decide)⟩, h.ne (by decide)⟩
  have hcolon : c ≠ ':' := h.ne (by decide)
  rcases stack with _ | ⟨f, stack⟩
  · exact afterValue_letter h
  · cases f with
    | array | member => exact afterValue_letter h
    | object => simp [closeString, step, hspace, hcolon]

lemma afterValue_quote (s : State) : afterValue s '"' = none := by
  obtain ⟨stack, mode⟩ := s
  rcases stack with _ | ⟨f, stack⟩
  · rfl
  · cases f <;> rfl

/-- A quote closes the string that is open, or leaves one open. -/
lemma of_step_quote {s s' : State} (h : step s '"' = some s') :
    (∃ codes, s.mode = .string codes ∧ s' = closeString s.stack codes) ∨
      ∃ codes, s' = ⟨s.stack, .string codes⟩ := by
  obtain ⟨stack, mode⟩ := s
  cases mode with
  | string codes => exact .inl ⟨codes, rfl, (Option.some.inj h).symm⟩
  | value first =>
      have hstep : step ⟨stack, .value first⟩ '"' = some ⟨stack, .string []⟩ := by
        cases first <;> rfl
      exact .inr ⟨[], Option.some.inj (h.symm.trans hstep)⟩
  | key first => exact .inr ⟨[], (Option.some.inj h).symm⟩
  | escape codes => exact .inr ⟨34 :: codes, (Option.some.inj h).symm⟩
  | hex codes read unit => cases h
  | colon => cases h
  | after =>
      rw [show step ⟨stack, .after⟩ '"' = none from afterValue_quote _] at h
      cases h
  | done v =>
      rw [show step ⟨stack, .done v⟩ '"' = none from afterValue_quote _] at h
      cases h
  | number phase d =>
      have hphase : nextPhase phase d '"' = none := by cases phase <;> rfl
      simp only [step, hphase, afterValue_quote, ite_self] at h
      cases h
  | word w read =>
      have hword : w.text[read]? ≠ some '"' := by
        intro hw
        have hmem := List.mem_of_getElem? hw
        revert hmem
        cases w <;> decide
      simp only [step, if_neg hword] at h
      cases h

/-- **Where a member may be closed by a printer that did not open it**: if the
end of a text and the name of the next member can be read, then a text was open
that is the value of a member. -/
lemma of_run_next_name {s s' : State} (c : Char) (name : List Char) (hc : IsLetter c)
    (hname : Plain (c :: name)) {cs : List Char}
    (h : run s ('"' :: ',' :: '"' :: c :: name ++ ['"', ':'] ++ cs) = some s') :
    ∃ members key rest codes, s = ⟨.member members key :: rest, .string codes⟩ := by
  rw [run_append] at h
  obtain ⟨s', h, -⟩ := Option.bind_eq_some_iff.mp h
  rw [List.cons_append, run_cons] at h
  obtain ⟨s₁, hquote, h⟩ := Option.bind_eq_some_iff.mp h
  rcases of_step_quote hquote with ⟨codes, hmode, rfl⟩ | ⟨codes, rfl⟩
  · obtain ⟨stack, mode⟩ := s
    obtain rfl : mode = .string codes := hmode
    rcases stack with _ | ⟨f, stack⟩
    · cases h
    · cases f with
      | member members key => exact ⟨members, key, stack, codes, rfl⟩
      | object members => cases h
      | array items =>
          -- the name is read as one more item, which no colon follows
          have hitem : run ⟨.array (items ++ [.string codes.reverse]) :: stack, .string []⟩
              (c :: name ++ ['"', ':']) = some s' := h
          rw [run_append, run_plain hname, Option.bind_some, run_cons, step_quote] at hitem
          cases hitem
  · -- the quote of the name closes the string that was left open
    have hopened : run ⟨s.stack, .string codes⟩ (',' :: '"' :: c :: name ++ ['"', ':']) = none := by
      rw [List.cons_append, run_cons, step_plain (by decide), Option.bind_some, List.cons_append,
        run_cons, step_quote, Option.bind_some, List.cons_append, run_cons,
        step_closeString_letter hc]
      rfl
    rw [hopened] at h
    cases h

/-- Where the last member may be closed by a printer that did not open it. -/
lemma of_run_end {s s' : State} {v : Value} (h : run s ['"', '\x7d'] = some s')
    (hv : finish s' = some v) :
    ∃ members key codes, s = ⟨[.member members key], .string codes⟩ := by
  rw [run_cons] at h
  obtain ⟨s₁, hquote, h⟩ := Option.bind_eq_some_iff.mp h
  rcases of_step_quote hquote with ⟨codes, hmode, rfl⟩ | ⟨codes, rfl⟩
  · obtain ⟨stack, mode⟩ := s
    obtain rfl : mode = .string codes := hmode
    rcases stack with _ | ⟨f, stack⟩
    · cases h
    · cases f with
      | array items => cases h
      | object members => cases h
      | member members key =>
          have hend : complete stack (.object ((key, .string codes.reverse) :: members)) = s' :=
            Option.some.inj h
          obtain ⟨rfl, -⟩ := finish_complete (hend ▸ hv)
          exact ⟨members, key, codes, rfl⟩
  · obtain rfl : ⟨s.stack, .string (125 :: codes)⟩ = s' := Option.some.inj h
    cases hv

end Members

/-! ### How long a string can be -/

def Frame.members : Frame → List (List ℕ × Value)
  | .array _ => []
  | .object members => members
  | .member members _ => members

/-- The string the parser is in. -/
def Mode.codes : Mode → List ℕ
  | .string codes | .escape codes | .hex codes _ _ => codes
  | _ => []

/-- The strings read for `key` are shorter than `bound`, and the one the parser
is in is no longer than `n`. -/
structure Confined (key : List ℕ) (bound n : ℕ) (s : State) : Prop where
  members : ∀ f ∈ s.stack, ∀ codes, (key, Value.string codes) ∈ f.members → codes.length < bound
  codes : s.mode.codes.length ≤ n

namespace Confined

variable {key codes : List ℕ} {bound n m : ℕ} {s s' : State} {stack : List Frame}

lemma mono (h : Confined key bound n s) (hm : n ≤ m) : Confined key bound m s :=
  ⟨h.members, h.codes.trans hm⟩

/-- A value that is no string, or a short one, ends. -/
lemma of_complete {v : Value}
    (hstack : ∀ f ∈ stack, ∀ codes, (key, Value.string codes) ∈ f.members → codes.length < bound)
    (hv : ∀ codes, v = .string codes → codes.length < bound) :
    Confined key bound 0 (complete stack v) := by
  rcases stack with _ | ⟨f, rest⟩
  · exact ⟨by simp [complete], le_rfl⟩
  · obtain ⟨hf, hrest⟩ := List.forall_mem_cons.mp hstack
    cases f with
    | array items => exact ⟨List.forall_mem_cons.mpr ⟨by simp [Frame.members], hrest⟩, le_rfl⟩
    | object members => exact ⟨List.forall_mem_cons.mpr ⟨hf, hrest⟩, le_rfl⟩
    | member members name =>
        refine ⟨List.forall_mem_cons.mpr ⟨fun codes hmem => ?_, hrest⟩, le_rfl⟩
        rcases List.mem_cons.mp hmem with heq | hmem
        · exact hv codes (Prod.mk.inj heq).2.symm
        · exact hf codes hmem

/-- A string ends. -/
lemma of_closeString
    (hstack : ∀ f ∈ stack, ∀ codes, (key, Value.string codes) ∈ f.members → codes.length < bound)
    (hcodes : codes.length < bound) : Confined key bound 0 (closeString stack codes) := by
  have hend : Confined key bound 0 (complete stack (.string codes.reverse)) := by
    refine of_complete hstack fun codes' h => ?_
    rw [← Value.string.inj h, List.length_reverse]
    exact hcodes
  rcases stack with _ | ⟨f, rest⟩
  · exact hend
  · cases f with
    | array | member => exact hend
    | object members =>
        obtain ⟨hf, hrest⟩ := List.forall_mem_cons.mp hstack
        exact ⟨List.forall_mem_cons.mpr ⟨hf, hrest⟩, le_rfl⟩

/-- The value of a member ends and the text of the next member begins. -/
lemma next {members : List (List ℕ × Value)} {name : List ℕ} (name' : List ℕ)
    (h : Confined key bound n ⟨.member members name :: stack, .string codes⟩) (hbound : n < bound) :
    Confined key bound 0 ⟨.member ((name, .string codes.reverse) :: members) name' :: stack,
      .string []⟩ := by
  have hclose := of_closeString h.members (lt_of_le_of_lt h.codes hbound)
  have hmembers := (List.forall_mem_cons.mp hclose.members).1
  exact ⟨List.forall_mem_cons.mpr ⟨hmembers, (List.forall_mem_cons.mp h.members).2⟩, le_rfl⟩

/-- The value of another member ends. -/
lemma skip {members : List (List ℕ × Value)} {name : List ℕ} {v : Value} {mode : Mode}
    (name' : List ℕ) (h : Confined key bound n ⟨.member members name :: stack, mode⟩)
    (hne : key ≠ name) :
    Confined key bound 0 ⟨.member ((name, v) :: members) name' :: stack, .string []⟩ := by
  obtain ⟨hf, hrest⟩ := List.forall_mem_cons.mp h.members
  refine ⟨List.forall_mem_cons.mpr ⟨fun codes hmem => ?_, hrest⟩, le_rfl⟩
  rcases List.mem_cons.mp hmem with heq | hmem
  · exact absurd (Prod.mk.inj heq).1 hne
  · exact hf codes hmem

/-- After a value. -/
lemma afterValue {c : Char} (h : Confined key bound n s) (hstep : afterValue s c = some s') :
    Confined key bound n s' := by
  obtain ⟨stack, mode⟩ := s
  have hstack := h.members
  simp only [Json.afterValue] at hstep
  split at hstep
  · cases hstep
    exact h
  · split at hstep
    · rename_i items rest
      split at hstep
      · cases hstep
        exact ⟨hstack, Nat.zero_le n⟩
      · split at hstep
        · cases hstep
          exact (of_complete (List.forall_mem_cons.mp hstack).2 (by simp)).mono (Nat.zero_le n)
        · cases hstep
    · rename_i members rest
      split at hstep
      · cases hstep
        exact ⟨hstack, Nat.zero_le n⟩
      · split at hstep
        · cases hstep
          exact (of_complete (List.forall_mem_cons.mp hstack).2 (by simp)).mono (Nat.zero_le n)
        · cases hstep
    · cases hstep

lemma length_pushUnit (codes : List ℕ) (unit : ℕ) :
    (pushUnit codes unit).length ≤ codes.length + 1 := by
  rcases codes with _ | ⟨high, rest⟩
  · exact le_rfl
  · rw [pushUnit]
    split <;> simp

/-- Beginning a value opens brackets without members at most. -/
lemma beginValue {c : Char} (h : Confined key bound n ⟨stack, .value first⟩)
    (hstep : beginValue stack c = some s') : Confined key bound n s' := by
  have hstay : ∀ mode : Mode, mode.codes = [] → Confined key bound n ⟨stack, mode⟩ :=
    fun mode hmode => ⟨h.members, by simp [hmode]⟩
  have hopen : ∀ (f : Frame) (mode : Mode), f.members = [] → mode.codes = [] →
      Confined key bound n ⟨f :: stack, mode⟩ := fun f mode hf hmode =>
    ⟨List.forall_mem_cons.mpr ⟨by simp [hf], h.members⟩, by simp [hmode]⟩
  simp only [Json.beginValue] at hstep
  split_ifs at hstep <;> obtain rfl := Option.some.inj hstep
  all_goals first | exact hstay _ rfl | exact hopen _ _ rfl rfl

/-- **One character makes a string one longer at most.** -/
lemma step {c : Char} (h : Confined key bound n s) (hbound : n < bound)
    (hstep : step s c = some s') : Confined key bound (n + 1) s' := by
  obtain ⟨stack, mode⟩ := s
  have hstack := h.members
  have hlen := h.codes
  have hmove : ∀ mode' : Mode, mode'.codes.length ≤ n + 1 →
      Confined key bound (n + 1) ⟨stack, mode'⟩ := fun mode' hmode => ⟨hstack, hmode⟩
  have hend : ∀ v : Value, (∀ codes, v ≠ .string codes) →
      Confined key bound 0 (complete stack v) := fun v hv =>
    of_complete hstack fun codes hc => absurd hc (hv codes)
  cases mode with
  | value first =>
      simp only [Json.step] at hstep
      split_ifs at hstep
      · cases hstep
        exact h.mono (Nat.le_succ n)
      · split at hstep
        · cases hstep
          exact (of_complete (List.forall_mem_cons.mp hstack).2 (by simp)).mono (Nat.zero_le _)
        · cases hstep
      · exact (h.beginValue hstep).mono (Nat.le_succ n)
  | key first =>
      simp only [Json.step] at hstep
      split_ifs at hstep
      · cases hstep
        exact h.mono (Nat.le_succ n)
      · cases hstep
        exact hmove _ (Nat.zero_le _)
      · exact (h.afterValue hstep).mono (Nat.le_succ n)
  | colon =>
      simp only [Json.step] at hstep
      split_ifs at hstep
      · cases hstep
        exact h.mono (Nat.le_succ n)
      · cases hstep
        exact hmove _ (Nat.zero_le _)
  | after => exact (h.afterValue hstep).mono (Nat.le_succ n)
  | done v => exact (h.afterValue hstep).mono (Nat.le_succ n)
  | string codes =>
      simp only [Json.step] at hstep
      split_ifs at hstep
      · cases hstep
        exact (of_closeString hstack (lt_of_le_of_lt hlen hbound)).mono (Nat.zero_le _)
      · cases hstep
        exact hmove _ (hlen.trans (Nat.le_succ n))
      · cases hstep
        exact hmove _ (Nat.succ_le_succ hlen)
  | escape codes =>
      simp only [Json.step] at hstep
      split_ifs at hstep
      · cases hstep
        exact hmove _ (hlen.trans (Nat.le_succ n))
      · obtain ⟨code, -, rfl⟩ := Option.map_eq_some_iff.mp hstep
        exact hmove _ (Nat.succ_le_succ hlen)
  | hex codes read unit =>
      simp only [Json.step] at hstep
      obtain ⟨d, -, rfl⟩ := Option.map_eq_some_iff.mp hstep
      split
      · exact hmove _ ((length_pushUnit codes _).trans (Nat.succ_le_succ hlen))
      · exact hmove _ (hlen.trans (Nat.le_succ n))
  | number phase d =>
      simp only [Json.step] at hstep
      split at hstep
      · cases hstep
        exact hmove _ (Nat.zero_le _)
      · split_ifs at hstep
        exact ((hend (.number d.number) nofun).afterValue hstep).mono (Nat.zero_le _)
  | word w read =>
      simp only [Json.step] at hstep
      split_ifs at hstep
      · cases hstep
        exact (hend w.value (by cases w <;> nofun)).mono (Nat.zero_le _)
      · cases hstep
        exact hmove _ (Nat.zero_le _)

lemma run {cs : List Char} (h : Confined key bound n s) (hbound : n + cs.length ≤ bound)
    (hrun : run s cs = some s') : Confined key bound (n + cs.length) s' := by
  induction cs generalizing s n with
  | nil =>
      cases hrun
      exact h
  | cons c cs ih =>
      rw [List.length_cons] at hbound ⊢
      rw [run_cons] at hrun
      obtain ⟨s₁, hstep, hrun⟩ := Option.bind_eq_some_iff.mp hrun
      have hnext := ih (h.step (by omega) hstep) (by omega) hrun
      rwa [show n + (cs.length + 1) = n + 1 + cs.length by omega]

/-- A character that is not plain adds nothing to the string the parser is in. -/
lemma step_of_not_plain {c : Char} (h : Confined key bound n ⟨stack, .string codes⟩)
    (hc : ¬ (0x20 ≤ c.toNat ∧ c ≠ '"' ∧ c ≠ '\\')) (hbound : n < bound)
    (hstep : Json.step ⟨stack, .string codes⟩ c = some s') : Confined key bound n s' := by
  simp only [Json.step] at hstep
  split_ifs at hstep with hquote hescape hrange
  · cases hstep
    exact (of_closeString h.members (lt_of_le_of_lt h.codes hbound)).mono (Nat.zero_le n)
  · cases hstep
    exact ⟨h.members, h.codes⟩
  · exact absurd ⟨hrange, hquote, hescape⟩ hc

/-- **A text that is not plain is not read as itself**: the string the parser is
in at its end is shorter, and so is every string read on the way. -/
lemma run_of_not_plain {cs : List Char} (h : Confined key bound n ⟨stack, .string codes⟩)
    (hcs : ¬ Plain cs) (hbound : n + cs.length ≤ bound)
    (hrun : Json.run ⟨stack, .string codes⟩ cs = some s') :
    Confined key bound (n + cs.length - 1) s' := by
  induction cs generalizing codes n with
  | nil => exact absurd nofun hcs
  | cons c cs ih =>
      rw [List.length_cons] at hbound ⊢
      rw [run_cons] at hrun
      obtain ⟨s₁, hstep, hrun⟩ := Option.bind_eq_some_iff.mp hrun
      by_cases hc : 0x20 ≤ c.toNat ∧ c ≠ '"' ∧ c ≠ '\\'
      · rw [step_plain hc] at hstep
        cases hstep
        have hrest : ¬ Plain cs := fun hplain => hcs (List.forall_mem_cons.mpr ⟨hc, hplain⟩)
        have hpushed : Confined key bound (n + 1) ⟨stack, .string (c.toNat :: codes)⟩ :=
          ⟨h.members, Nat.succ_le_succ h.codes⟩
        have hend := ih hpushed hrest (by omega) hrun
        rwa [show n + (cs.length + 1) - 1 = n + 1 + cs.length - 1 by omega]
      · have hend := (h.step_of_not_plain hc (by omega) hstep).run (by omega) hrun
        rwa [show n + (cs.length + 1) - 1 = n + cs.length by omega]

end Confined

end Json
