import Mathlib.Data.Nat.NthRoot.Defs
import Mathlib.Data.Nat.Prime.Defs
import Mathlib.Data.Nat.Sqrt
import Mathlib.Tactic.Ring

/-!
SHA-256, as FIPS 180-4 defines it.

* `ch`, `maj`, `upper0`, `lower0`, …: the functions of section 4.1.2.
* `constant`, `initial`: the constants, as digits of roots of the first primes.
* `zeroBits`, `pad`: the padding of section 5.1.1, and `zeroBits_spec`.
* `schedule`, `round`, `compress`, `hash`: the computation of section 6.2.2.
* `length_pad`: a padded message is whole blocks.
-/

namespace Sha256

/-- A 32-bit word; its additions wrap around. -/
abbrev Word := BitVec 32

/-! ### Functions -/

def ch (x y z : Word) : Word := (x &&& y) ^^^ (~~~x &&& z)

def maj (x y z : Word) : Word := (x &&& y) ^^^ (x &&& z) ^^^ (y &&& z)

/-- `Σ₀`. -/
def upper0 (x : Word) : Word := x.rotateRight 2 ^^^ x.rotateRight 13 ^^^ x.rotateRight 22

/-- `Σ₁`. -/
def upper1 (x : Word) : Word := x.rotateRight 6 ^^^ x.rotateRight 11 ^^^ x.rotateRight 25

/-- `σ₀`. -/
def lower0 (x : Word) : Word := x.rotateRight 7 ^^^ x.rotateRight 18 ^^^ x >>> 3

/-- `σ₁`. -/
def lower1 (x : Word) : Word := x.rotateRight 17 ^^^ x.rotateRight 19 ^^^ x >>> 10

/-! ### Constants -/

/-- The first 64 primes. -/
def primes : List ℕ := (List.range 312).filter Nat.Prime

/-- Trial division up to the square root. -/
lemma prime_iff_of_lt_sq {n k : ℕ} (h : n < k * k) :
    n.Prime ↔ 2 ≤ n ∧ ∀ d < k, 2 ≤ d → d * d ≤ n → ¬ d ∣ n := by
  rw [Nat.prime_def_le_sqrt]
  refine and_congr_right fun _ => forall_congr' fun d => ⟨fun hd _ h2 hsq => ?_, fun hd h2 hsq => ?_⟩
  · exact hd h2 (Nat.le_sqrt.mpr hsq)
  · have hle : d * d ≤ n := Nat.le_sqrt.mp hsq
    exact hd (Nat.mul_self_lt_mul_self_iff.mp (hle.trans_lt h)) h2 hle

lemma primes_eq : primes =
    (List.range 312).filter fun n => 2 ≤ n ∧ ∀ d < 18, 2 ≤ d → d * d ≤ n → ¬ d ∣ n :=
  List.filter_congr fun n hn => by
    have hlt : n < 18 * 18 := (List.mem_range.mp hn).trans (by decide)
    exact decide_eq_decide.mpr (prime_iff_of_lt_sq hlt)

/-- The first 32 bits of the fractional parts of their cube roots. -/
def constants : List Word := primes.map fun p => BitVec.ofNat 32 (Nat.nthRoot 3 (p * 2 ^ 96))

/-- `K_t`. -/
def constant (t : ℕ) : Word := constants.getD t 0

/-- The eight words of a hash value, or the eight working variables. -/
structure Vars where
  (a b c d e f g h : Word)
  deriving DecidableEq, Repr

/-- The words of a hash value, in their order. -/
def Vars.words (v : Vars) : List Word := [v.a, v.b, v.c, v.d, v.e, v.f, v.g, v.h]

/-- The first 32 bits of the fractional parts of the square roots of the first
eight primes. -/
def rootBits (p : ℕ) : Word := BitVec.ofNat 32 (Nat.sqrt (p * 2 ^ 64))

/-- `H⁽⁰⁾`. -/
def initial : Vars :=
  ⟨rootBits 2, rootBits 3, rootBits 5, rootBits 7, rootBits 11, rootBits 13, rootBits 17,
    rootBits 19⟩

/-! ### Padding -/

/-- How many zeros stand between the one that ends a message of `bits` bits and
its length: the least number that leaves 64 bits of the last block. -/
def zeroBits (bits : ℕ) : ℕ := (959 - bits % 512) % 512

lemma zeroBits_spec (bits : ℕ) : (bits + 1 + zeroBits bits) % 512 = 448 ∧
    ∀ k < zeroBits bits, (bits + 1 + k) % 512 ≠ 448 := by
  rw [zeroBits]
  refine ⟨by omega, fun k hk => ?_⟩
  omega

/-- The length of a message in bits, in 64 bits from the most significant one on. -/
def lengthBytes (bits : ℕ) : List UInt8 :=
  (List.range 8).map fun i => UInt8.ofNat (bits / 256 ^ (7 - i))

/-- The padded message. The one and the first seven zeros are the byte `0x80`. -/
def pad (message : List UInt8) : List UInt8 :=
  message ++ 0x80 :: (List.replicate (zeroBits (8 * message.length) / 8) 0 ++
    lengthBytes (8 * message.length))

/-! ### Computation -/

/-- Four bytes as a word. -/
def word (b₀ b₁ b₂ b₃ : UInt8) : Word := b₀.toBitVec ++ b₁.toBitVec ++ b₂.toBitVec ++ b₃.toBitVec

/-- `M_t⁽ⁱ⁾`: word `t` of block `i`. -/
def blockWord (padded : List UInt8) (i t : ℕ) : Word :=
  let byte j := padded.getD (64 * i + 4 * t + j) 0
  word (byte 0) (byte 1) (byte 2) (byte 3)

/-- `W_t`: the message schedule of a block. -/
def schedule (block : ℕ → Word) (t : ℕ) : Word :=
  if t < 16 then block t
  else lower1 (schedule block (t - 2)) + schedule block (t - 7) +
    lower0 (schedule block (t - 15)) + schedule block (t - 16)
  termination_by t

/-- One round on the working variables. -/
def Vars.round (v : Vars) (k w : Word) : Vars :=
  let t₁ := v.h + upper1 v.e + ch v.e v.f v.g + k + w
  let t₂ := upper0 v.a + maj v.a v.b v.c
  ⟨t₁ + t₂, v.a, v.b, v.c, v.d + t₁, v.e, v.f, v.g⟩

/-- The next hash value. -/
def compress (hash : Vars) (block : ℕ → Word) : Vars :=
  let v := (List.range 64).foldl (fun v t => v.round (constant t) (schedule block t)) hash
  ⟨v.a + hash.a, v.b + hash.b, v.c + hash.c, v.d + hash.d, v.e + hash.e, v.f + hash.f,
    v.g + hash.g, v.h + hash.h⟩

/-- The hash value of a message. -/
def hash (message : List UInt8) : Vars :=
  (List.range ((pad message).length / 64)).foldl
    (fun hash i => compress hash (blockWord (pad message) i)) initial

/-- A word in hexadecimal. -/
def hexWord (w : Word) : List Char :=
  (List.range 8).map fun i => Nat.digitChar (w.toNat / 16 ^ (7 - i) % 16)

/-- **The digest** of a message, in lowercase hexadecimal. -/
def digest (message : List UInt8) : List Char := (hash message).words.flatMap hexWord

/-! ### The length of a padded message -/

lemma length_lengthBytes (bits : ℕ) : (lengthBytes bits).length = 8 := by
  rw [lengthBytes, List.length_map, List.length_range]

/-- What remains of a message after its full blocks fits in one more block with
the padding, or in two. -/
def tailBlocks (length : ℕ) : ℕ := if length % 64 < 56 then 1 else 2

lemma length_pad (message : List UInt8) : (pad message).length =
    64 * (message.length / 64 + tailBlocks message.length) := by
  rw [pad, List.length_append, List.length_cons, List.length_append, List.length_replicate,
    length_lengthBytes, zeroBits, tailBlocks]
  split <;> omega

lemma getElem?_lengthBytes {bits i : ℕ} (hi : i < 8) :
    (lengthBytes bits)[i]? = some (UInt8.ofNat (bits / 256 ^ (7 - i))) := by
  rw [lengthBytes, List.getElem?_map, List.getElem?_range hi, Option.map_some]

/-- The four parts of a padded message. -/
lemma getElem?_pad (message : List UInt8) (k : ℕ) : (pad message)[k]? =
    if k < message.length then message[k]?
    else if k = message.length then some 0x80
    else if k - message.length - 1 < zeroBits (8 * message.length) / 8 then some 0
    else (lengthBytes (8 * message.length))[k - message.length - 1 -
      zeroBits (8 * message.length) / 8]? := by
  rw [pad, List.getElem?_append]
  split_ifs with h h' h''
  · rfl
  · rw [h', Nat.sub_self, List.getElem?_cons_zero]
  · obtain ⟨m, hm⟩ : ∃ m, k - message.length = m + 1 := ⟨k - message.length - 1, by omega⟩
    rw [hm, Nat.add_sub_cancel] at h''
    rw [hm, List.getElem?_cons_succ, List.getElem?_append_left (by simpa using h''),
      List.getElem?_replicate, if_pos h'']
  · obtain ⟨m, hm⟩ : ∃ m, k - message.length = m + 1 := ⟨k - message.length - 1, by omega⟩
    rw [hm, Nat.add_sub_cancel] at h'' ⊢
    rw [List.getElem?_cons_succ, List.getElem?_append_right (by simpa using h''),
      List.length_replicate]

lemma length_hexWord (w : Word) : (hexWord w).length = 8 := by
  rw [hexWord, List.length_map, List.length_range]

lemma length_digest (message : List UInt8) : (digest message).length = 64 := by
  simp [digest, Vars.words, length_hexWord]

/-! ### Schedules -/

lemma schedule_of_lt {block : ℕ → Word} {t : ℕ} (ht : t < 16) : schedule block t = block t := by
  rw [schedule, if_pos ht]

lemma schedule_of_ge {block : ℕ → Word} {t : ℕ} (ht : 16 ≤ t) : schedule block t =
    lower1 (schedule block (t - 2)) + schedule block (t - 7) +
      lower0 (schedule block (t - 15)) + schedule block (t - 16) := by
  rw [schedule, if_neg (not_lt.mpr ht)]

/-- A schedule depends on the sixteen words of its block. -/
lemma schedule_congr {block block' : ℕ → Word} (h : ∀ t < 16, block t = block' t) (t : ℕ) :
    schedule block t = schedule block' t := by
  induction t using Nat.strong_induction_on with
  | _ t ih =>
      rcases lt_or_ge t 16 with ht | ht
      · rw [schedule_of_lt ht, schedule_of_lt ht, h t ht]
      · rw [schedule_of_ge ht, schedule_of_ge ht, ih (t - 2) (by omega), ih (t - 7) (by omega),
          ih (t - 15) (by omega), ih (t - 16) (by omega)]

lemma compress_congr {block block' : ℕ → Word} (h : ∀ t < 16, block t = block' t) (hash : Vars) :
    compress hash block = compress hash block' := by
  have hschedule : schedule block = schedule block' := funext (schedule_congr h)
  rw [compress, compress, hschedule]

end Sha256
