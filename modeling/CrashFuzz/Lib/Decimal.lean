import Mathlib.Data.List.TakeWhile
import CrashFuzz.Lib.Binary64

/-!
Decimal literals.

* `Decimal`: the parts of a literal, filled digit by digit; `Decimal.number` is
  the number it stands for.
* `Decimal.digits_toDigits`: the digits of a natural number give it back.
* `Decimal.integerChars`: an integer as it is printed.
* `Decimal.ofChars`: the literal a text is, if it is one. `ofChars_integerChars`:
  a printed integer is the literal of that integer.
-/

/-- A decimal literal, as far as it was read. -/
structure Decimal where
  negative : Bool
  /-- All digits before the exponent. -/
  mantissa : ℕ
  /-- How many of them stand after the point. -/
  places : ℕ
  exponentNegative : Bool
  exponent : ℕ
  deriving DecidableEq, Repr

namespace Decimal

/-- No digit yet. -/
def empty (negative : Bool) : Decimal := ⟨negative, 0, 0, false, 0⟩

/-- One more digit of a number. -/
def shift (n : ℕ) (c : Char) : ℕ := 10 * n + (c.toNat - 48)

def digit (d : Decimal) (c : Char) : Decimal := { d with mantissa := shift d.mantissa c }

def fraction (d : Decimal) (c : Char) : Decimal :=
  { d with mantissa := shift d.mantissa c, places := d.places + 1 }

def exponentSign (d : Decimal) (c : Char) : Decimal := { d with exponentNegative := c = '-' }

def exponentDigit (d : Decimal) (c : Char) : Decimal := { d with exponent := shift d.exponent c }

/-- The value of the literal. -/
def rational (d : Decimal) : ℚ :=
  let m : ℚ := if d.negative then -d.mantissa else d.mantissa
  let scaled : ℚ := m / 10 ^ d.places
  if d.exponentNegative then scaled / 10 ^ d.exponent else scaled * 10 ^ d.exponent

/-- The number next to it. -/
def number (d : Decimal) : Option ℚ := Binary64.round d.rational

/-- The digits `cs`, one after the other. -/
def digits (d : Decimal) (cs : List Char) : Decimal := cs.foldl digit d

@[simp] lemma digits_nil (d : Decimal) : d.digits [] = d := rfl

@[simp] lemma digits_cons (d : Decimal) (c : Char) (cs : List Char) :
    d.digits (c :: cs) = (d.digit c).digits cs := by
  rw [digits, digits, List.foldl_cons]

lemma digits_eq (d : Decimal) (cs : List Char) :
    d.digits cs = { d with mantissa := Nat.ofDigitChars 10 cs d.mantissa } := by
  induction cs generalizing d with
  | nil => rfl
  | cons c cs ih =>
      rw [digits_cons, ih, Nat.ofDigitChars_cons]
      rfl

/-- The digits of `n` stand for `n`. -/
lemma digits_toDigits (negative : Bool) (n : ℕ) :
    (empty negative).digits (Nat.toDigits 10 n) = { empty negative with mantissa := n } := by
  rw [digits_eq, empty, Nat.ofDigitChars_ten_toDigits]

/-- The digits of a printed number. -/
lemma isDigit_toDigits {n : ℕ} {c : Char} (hc : c ∈ Nat.toDigits 10 n) : c.isDigit = true :=
  Nat.isDigit_of_mem_toDigits (by decide) (by decide) hc

/-- Without point and exponent a literal stands for an integer. -/
lemma rational_integer (negative : Bool) (n : ℕ) :
    rational { empty negative with mantissa := n } =
      ((if negative then -(n : ℤ) else n : ℤ) : ℚ) := by
  cases negative <;> simp [rational, empty]

/-- An integer as it is printed. -/
def integerChars (n : ℤ) : List Char :=
  if n < 0 then '-' :: Nat.toDigits 10 n.natAbs else Nat.toDigits 10 n.natAbs

lemma integerChars_ne_nil (n : ℤ) : integerChars n ≠ [] := by
  rw [integerChars]
  split
  · exact List.cons_ne_nil _ _
  · exact Nat.toDigits_ne_nil

lemma toList_toString_int (n : ℤ) : (toString n).toList = integerChars n := by
  cases n with
  | ofNat n =>
      rw [integerChars, if_neg (by simp)]
      exact Nat.toList_repr
  | negSucc n =>
      rw [integerChars, if_pos (Int.negSucc_lt_zero n),
        show toString (Int.negSucc n) = "-" ++ toString (n + 1) from rfl, String.toList_append]
      exact congrArg (['-'] ++ ·) Nat.toList_repr

lemma toList_toString_nat (n : ℕ) : (toString n).toList = integerChars n :=
  toList_toString_int n

/-- The literal of an integer has its value. -/
lemma number_natAbs (n : ℤ) :
    number { empty (decide (n < 0)) with mantissa := n.natAbs } = Binary64.round n := by
  have habs : (if decide (n < 0) then -(n.natAbs : ℤ) else n.natAbs) = n := by
    simp only [decide_eq_true_eq]
    split <;> omega
  rw [number, rational_integer, habs]

/-! ### Texts that are literals -/

/-- The sign of a literal, and what follows it. -/
def signOf : List Char → Bool × List Char
  | '+' :: cs => (false, cs)
  | '-' :: cs => (true, cs)
  | cs => (false, cs)

/-- The end of a literal: nothing, or an exponent. -/
def withExponent (d : Decimal) : List Char → Option Decimal
  | [] => some d
  | e :: cs =>
      let (negative, digits) := signOf cs
      if (e = 'e' ∨ e = 'E') ∧ digits ≠ [] ∧ digits.all Char.isDigit then
        some { d with exponentNegative := negative, exponent := Nat.ofDigitChars 10 digits 0 }
      else none

/-- The digits after the point, if there is one, and what follows them. -/
def fractionOf : List Char → List Char × List Char
  | '.' :: cs => (cs.takeWhile Char.isDigit, cs.dropWhile Char.isDigit)
  | cs => ([], cs)

/-- The literal of a text: digits on one side of the point at least. -/
def ofChars (cs : List Char) : Option Decimal :=
  let (negative, cs) := signOf cs
  let whole := cs.takeWhile Char.isDigit
  let (fraction, rest) := fractionOf (cs.dropWhile Char.isDigit)
  if whole = [] ∧ fraction = [] then none
  else
    withExponent
      { empty negative with
        mantissa := Nat.ofDigitChars 10 (whole ++ fraction) 0
        places := fraction.length } rest

lemma takeWhile_toDigits (n : ℕ) :
    (Nat.toDigits 10 n).takeWhile Char.isDigit = Nat.toDigits 10 n :=
  List.takeWhile_eq_self_iff.mpr fun _ hc => isDigit_toDigits hc

lemma dropWhile_toDigits (n : ℕ) : (Nat.toDigits 10 n).dropWhile Char.isDigit = [] :=
  List.dropWhile_eq_nil_iff.mpr fun _ hc => isDigit_toDigits hc

lemma signOf_integerChars (n : ℤ) :
    signOf (integerChars n) = (decide (n < 0), Nat.toDigits 10 n.natAbs) := by
  rw [integerChars]
  by_cases hneg : n < 0
  · rw [if_pos hneg, decide_eq_true hneg]
    rfl
  · rw [if_neg hneg, decide_eq_false hneg]
    cases hdigits : Nat.toDigits 10 n.natAbs with
    | nil => rfl
    | cons c cs =>
        have hdigit : c.isDigit = true := isDigit_toDigits (hdigits ▸ List.mem_cons_self)
        have hsign : c ≠ '+' ∧ c ≠ '-' := by
          refine ⟨?_, ?_⟩ <;> (rintro rfl; exact absurd hdigit (by decide))
        rw [signOf]
        · rintro _ ⟨⟩
          exact hsign.1 rfl
        · rintro _ ⟨⟩
          exact hsign.2 rfl

/-- A printed integer is the literal of that integer. -/
lemma ofChars_integerChars (n : ℤ) : ofChars (integerChars n) =
    some { empty (decide (n < 0)) with mantissa := n.natAbs } := by
  rw [ofChars, signOf_integerChars]
  simp only [takeWhile_toDigits, dropWhile_toDigits, fractionOf, Nat.toDigits_ne_nil, false_and,
    if_false, List.append_nil, Nat.ofDigitChars_ten_toDigits, withExponent]
  rfl

end Decimal
