import Mathlib.Tactic

/-!
The finite numbers of the binary64 format, as rationals.

* `round`: the number next to a rational, ties to the even significand; none
  when it is out of range. `round_intCast`: integers of magnitude up to
  `2 ^ 53` are numbers themselves.
* `add`, `mul`: the rounded operations.
* `toInt32`: the 32 low bits of the integral part, as bitwise operators see it.
-/

namespace Binary64

/-- The integer next to `num / den`, of two the even one. -/
def roundDiv (num : ℤ) (den : ℕ) : ℤ :=
  let q := num / den
  let r := num % den
  if 2 * r < den then q else if den < 2 * r then q + 1 else if q % 2 = 0 then q else q + 1

/-- The exponent of the last place of the numbers around `q`. -/
def ulpExponent (q : ℚ) : ℤ :=
  let a := q.num.natAbs
  let b := q.den
  let e : ℤ := a.log2 - b.log2
  -- `2 ^ (e - 1) < a / b < 2 ^ (e + 1)`
  let exponent := if b * 2 ^ e.toNat ≤ a * 2 ^ (-e).toNat then e else e - 1
  max (exponent - 52) (-1074)

/-- The number next to `q`. -/
def round (q : ℚ) : Option ℚ :=
  let e := ulpExponent q
  let m := roundDiv (q.num * 2 ^ (-e).toNat) (q.den * 2 ^ e.toNat)
  let r : ℚ := m * 2 ^ e.toNat / 2 ^ (-e).toNat
  if |r| < 2 ^ 1024 then some r else none

def add (x y : ℚ) : Option ℚ := round (x + y)

def mul (x y : ℚ) : Option ℚ := round (x * y)

/-- `x | 0`, where what is not finite counts as zero. -/
def toInt32 (x : Option ℚ) : BitVec 32 :=
  match x with
  | none => 0
  | some q => BitVec.ofInt 32 (q.num.tdiv q.den)

lemma roundDiv_one (n : ℤ) : roundDiv n 1 = n := by
  simp [roundDiv]

lemma roundDiv_two {n : ℤ} (h : n % 2 = 0) : roundDiv n 2 = n / 2 := by
  simp [roundDiv, h]

/-- The last place of an integer in range is the unit or less, but for
`2 ^ 53` itself. -/
lemma ulpExponent_intCast {n : ℤ} (h : n.natAbs ≤ 2 ^ 53) :
    ulpExponent n ≤ 0 ∨ (ulpExponent n = 1 ∧ n % 2 = 0) := by
  rw [ulpExponent, Rat.num_intCast, Rat.den_intCast]
  generalize ha : n.natAbs = a at h
  have hone : Nat.log2 1 = 0 := rfl
  simp only [hone, Nat.cast_zero, sub_zero, Int.toNat_natCast, one_mul]
  have hneg : (-(a.log2 : ℤ)).toNat = 0 := by omega
  rw [hneg, pow_zero, mul_one]
  rcases Nat.lt_or_ge a (2 ^ 53) with hlt | hge
  · left
    have hlog : a.log2 ≤ 52 := by
      rcases Nat.eq_zero_or_pos a with rfl | hpos
      · simp
      · have := (Nat.log2_lt hpos.ne').mpr hlt
        omega
    split <;> omega
  · right
    obtain rfl : a = 2 ^ 53 := le_antisymm h hge
    rw [Nat.log2_two_pow, if_pos le_rfl]
    constructor
    · omega
    · omega

/-- An integer of magnitude up to `2 ^ 53` is a number. -/
lemma round_intCast {n : ℤ} (h : n.natAbs ≤ 2 ^ 53) : round (n : ℚ) = some (n : ℚ) := by
  have hbound : |(n : ℚ)| < 2 ^ 1024 := by
    have hn : |(n : ℚ)| ≤ 2 ^ 53 := by
      rw [← Int.cast_abs, Int.abs_eq_natAbs]
      exact_mod_cast h
    exact hn.trans_lt (pow_lt_pow_right₀ (by norm_num) (by norm_num))
  rw [round, Rat.num_intCast, Rat.den_intCast]
  rcases ulpExponent_intCast h with he | ⟨he, heven⟩
  · obtain ⟨k, hk⟩ : ∃ k : ℕ, ulpExponent n = -k := ⟨(-ulpExponent n).toNat, by omega⟩
    have hpow : (2 : ℚ) ^ k ≠ 0 := by positivity
    simp only [hk, neg_neg, Int.toNat_natCast, Int.toNat_neg_natCast, pow_zero, mul_one,
      roundDiv_one]
    have hval : ((n * 2 ^ k : ℤ) : ℚ) / 2 ^ k = n := by
      push_cast
      exact mul_div_cancel_right₀ _ hpow
    rw [hval, if_pos hbound]
  · have hval : ((n / 2 : ℤ) : ℚ) * 2 = n := by
      exact_mod_cast Int.ediv_mul_cancel (Int.dvd_of_emod_eq_zero heven)
    simp only [he, show (-1 : ℤ).toNat = 0 from rfl, show (1 : ℤ).toNat = 1 from rfl, pow_zero,
      pow_one, mul_one, div_one, one_mul]
    rw [roundDiv_two heven, hval, if_pos hbound]

end Binary64
