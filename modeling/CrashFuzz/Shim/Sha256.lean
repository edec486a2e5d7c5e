import CrashFuzz.Lib.Runs
import CrashFuzz.Lib.Sha256

/-!
The digests of the shim (`shim/src/sha256.c`).

* `K`, `rotr`, `compress`, `sha256Hex`: the code. What an array holds before it
  is written is a parameter.
* `compress_eq`: one block is compressed as the standard says.
* `tailBytes_eq`: the tail is the end of the padded message.
* `sha256Hex_eq`: the text is the digest of the message.
-/

namespace CrashFuzz.Shim

open Sha256 (Word Vars)

/-! ### The code -/

/-- `K`. -/
def K : List Word := [
  0x428a2f98, 0x71374491, 0xb5c0fbcf, 0xe9b5dba5, 0x3956c25b, 0x59f111f1,
  0x923f82a4, 0xab1c5ed5, 0xd807aa98, 0x12835b01, 0x243185be, 0x550c7dc3,
  0x72be5d74, 0x80deb1fe, 0x9bdc06a7, 0xc19bf174, 0xe49b69c1, 0xefbe4786,
  0x0fc19dc6, 0x240ca1cc, 0x2de92c6f, 0x4a7484aa, 0x5cb0a9dc, 0x76f988da,
  0x983e5152, 0xa831c66d, 0xb00327c8, 0xbf597fc7, 0xc6e00bf3, 0xd5a79147,
  0x06ca6351, 0x14292967, 0x27b70a85, 0x2e1b2138, 0x4d2c6dfc, 0x53380d13,
  0x650a7354, 0x766a0abb, 0x81c2c92e, 0x92722c85, 0xa2bfe8a1, 0xa81a664b,
  0xc24b8b70, 0xc76c51a3, 0xd192e819, 0xd6990624, 0xf40e3585, 0x106aa070,
  0x19a4c116, 0x1e376c08, 0x2748774c, 0x34b0bcb5, 0x391c0cb3, 0x4ed8aa4a,
  0x5b9cca4f, 0x682e6ff3, 0x748f82ee, 0x78a5636f, 0x84c87814, 0x8cc70208,
  0x90befffa, 0xa4506ceb, 0xbef9a3f7, 0xc67178f2]

/-- `rotr`. -/
def rotr (x : Word) (n : ℕ) : Word := x >>> n ||| x <<< (32 - n)

/-- What the first loop of `compress` stores in `w[i]`. -/
def loaded (block : ℕ → UInt8) (i : ℕ) : Word :=
  (block (i * 4)).toBitVec.setWidth 32 <<< 24 |||
    (block (i * 4 + 1)).toBitVec.setWidth 32 <<< 16 |||
    (block (i * 4 + 2)).toBitVec.setWidth 32 <<< 8 ||| (block (i * 4 + 3)).toBitVec.setWidth 32

/-- What the second loop stores in `w[i]`. -/
def extended (w : Vector Word 64) (i : ℕ) : Word :=
  let s0 := rotr w[i - 15]! 7 ^^^ rotr w[i - 15]! 18 ^^^ w[i - 15]! >>> 3
  let s1 := rotr w[i - 2]! 17 ^^^ rotr w[i - 2]! 19 ^^^ w[i - 2]! >>> 10
  w[i - 16]! + s0 + w[i - 7]! + s1

/-- The array `w` after the two loops. -/
def expand (w : Vector Word 64) (block : ℕ → UInt8) : Vector Word 64 :=
  let w := (List.range' 0 16).foldl (fun w i => w.set! i (loaded block i)) w
  (List.range' 16 48).foldl (fun w i => w.set! i (extended w i)) w

/-- One turn of the third loop, on the variables `a` to `h`. -/
def mix (w : Vector Word 64) (v : Vars) (i : ℕ) : Vars :=
  let s1 := rotr v.e 6 ^^^ rotr v.e 11 ^^^ rotr v.e 25
  let ch := (v.e &&& v.f) ^^^ (~~~v.e &&& v.g)
  let t1 := v.h + s1 + ch + K[i]! + w[i]!
  let s0 := rotr v.a 2 ^^^ rotr v.a 13 ^^^ rotr v.a 22
  let maj := (v.a &&& v.b) ^^^ (v.a &&& v.c) ^^^ (v.b &&& v.c)
  let t2 := s0 + maj
  ⟨t1 + t2, v.a, v.b, v.c, v.d + t1, v.e, v.f, v.g⟩

/-- `compress`. -/
def compress (w : Vector Word 64) (state : Vars) (block : ℕ → UInt8) : Vars :=
  let w := expand w block
  let v := (List.range 64).foldl (mix w) state
  ⟨state.a + v.a, state.b + v.b, state.c + v.c, state.d + v.d, state.e + v.e, state.f + v.f,
    state.g + v.g, state.h + v.h⟩

/-- The initial value of `state`. -/
def initialState : Vars :=
  ⟨0x6a09e667, 0xbb67ae85, 0x3c6ef372, 0xa54ff53a, 0x510e527f, 0x9b05688c, 0x1f83d9ab, 0x5be0cd19⟩

/-- `memcpy` to the start of an array. -/
def memcpy (dest : Vector UInt8 128) (src : ℕ → UInt8) (n : ℕ) : Vector UInt8 128 :=
  .ofFn fun j => if j < n then src j else dest[j]

/-- `memset` from an offset on. -/
def memset (dest : Vector UInt8 128) (start : ℕ) (value : UInt8) (n : ℕ) : Vector UInt8 128 :=
  .ofFn fun j => if start ≤ j ∧ j < start + n then value else dest[j]

/-- `tail_len`. -/
def tailLength (rest : ℕ) : ℕ := if rest + 1 + 8 ≤ 64 then 64 else 128

/-- The array `tail` as it is compressed. -/
def tailBytes (tail : Vector UInt8 128) (data : ℕ → UInt8) (len : ℕ) : Vector UInt8 128 :=
  let fullBlocks := len / 64
  let rest := len - fullBlocks * 64
  let tail := memcpy tail (fun j => data (fullBlocks * 64 + j)) rest
  let tail := tail.set! rest 0x80
  let tailLen := tailLength rest
  let tail := memset tail (rest + 1) 0 (tailLen - rest - 1)
  let bits : BitVec 64 := BitVec.ofNat 64 len * 8
  (List.range 8).foldl (fun tail i =>
    tail.set! (tailLen - 1 - i) ⟨(bits >>> (8 * i)).setWidth 8⟩) tail

/-- `HEX`. -/
def HEX : List Char := "0123456789abcdef".toList

/-- The digits of one word. -/
def hexDigits (x : Word) : List Char :=
  (List.range 4).flatMap fun b =>
    let byte : BitVec 8 := (x >>> (24 - 8 * b)).setWidth 8
    [HEX[(byte >>> 4).toNat]!, HEX[(byte &&& 0xf).toNat]!]

/-- `sha256_hex`: what it writes to `out`, from left to right. The call that
compresses block `i` finds `w i` in its array. -/
def sha256Hex (w : ℕ → Vector Word 64) (tail : Vector UInt8 128) (data : ℕ → UInt8) (len : ℕ) :
    List Char :=
  let fullBlocks := len / 64
  let state := (List.range fullBlocks).foldl
    (fun state i => compress (w i) state fun j => data (i * 64 + j)) initialState
  let tail := tailBytes tail data len
  let state := compress (w fullBlocks) state fun j => tail[j]!
  let state := if tailLength (len - fullBlocks * 64) = 128 then
    compress (w (fullBlocks + 1)) state fun j => tail[64 + j]! else state
  state.words.flatMap hexDigits ++ [Char.ofNat 0]

/-! ### One block -/

variable {block : ℕ → UInt8} {i t : ℕ}

lemma get!_of_get? {α : Type} [Inhabited α] {n : ℕ} {xs : Vector α n} {a : α}
    (h : xs[i]? = some a) : xs[i]! = a := by
  rw [getElem!_def, h]

lemma rotr_eq (x : Word) {n : ℕ} (hn : n < 32) : rotr x n = x.rotateRight n := by
  rw [rotr, BitVec.rotateRight, BitVec.rotateRightAux, Nat.mod_eq_of_lt hn]

/-- The constants of the code are those of the standard. -/
lemma K_eq : K = Sha256.constants := by
  rw [Sha256.constants, Sha256.primes_eq]
  decide +kernel

lemma initialState_eq : initialState = Sha256.initial := by decide +kernel

/-- The words of a block that starts at an address. -/
def blockAt (block : ℕ → UInt8) (t : ℕ) : Word :=
  Sha256.word (block (4 * t)) (block (4 * t + 1)) (block (4 * t + 2)) (block (4 * t + 3))

lemma loaded_eq : loaded block i = blockAt block i := by
  rw [loaded, blockAt, Sha256.word, Nat.mul_comm i 4]
  generalize (block (4 * i)).toBitVec = b₀
  generalize (block (4 * i + 1)).toBitVec = b₁
  generalize (block (4 * i + 2)).toBitVec = b₂
  generalize (block (4 * i + 3)).toBitVec = b₃
  apply BitVec.eq_of_getLsbD_eq
  intro j hj
  simp only [BitVec.getLsbD_or, BitVec.getLsbD_shiftLeft, BitVec.getLsbD_setWidth,
    BitVec.getLsbD_append]
  have hzero : ∀ (b : BitVec 8) n, 8 ≤ n → b.getLsbD n = false := fun b n hn =>
    BitVec.getLsbD_of_ge b n hn
  -- The byte that bit `j` comes from.
  rcases lt_or_ge j 8 with h₃ | h₃
  · simp [show j < 32 by omega, show j < 24 by omega, show j < 16 by omega, h₃]
  rcases lt_or_ge j 16 with h₂ | h₂
  · simp [show j < 32 by omega, show j < 24 by omega, h₂, not_lt.mpr h₃, hzero b₃ j h₃,
      show j - 8 < 8 by omega, show j - 8 < 32 by omega]
  rcases lt_or_ge j 24 with h₁ | h₁
  · simp [show j < 32 by omega, h₁, not_lt.mpr h₃, not_lt.mpr h₂, hzero b₃ j h₃,
      hzero b₂ (j - 8) (by omega), show ¬ j - 8 < 8 by omega, show j - 16 < 8 by omega,
      show j - 16 < 32 by omega, show j - 8 - 8 = j - 16 by omega]
  · simp [show j < 32 by omega, not_lt.mpr h₃, not_lt.mpr h₂, not_lt.mpr h₁, hzero b₃ j h₃,
      hzero b₂ (j - 8) (by omega), hzero b₁ (j - 16) (by omega), show ¬ j - 8 < 8 by omega,
      show ¬ j - 8 - 8 < 8 by omega, show j - 24 < 32 by omega,
      show j - 8 - 8 - 8 = j - 24 by omega]

/-- A step of the second loop, on an array that is right so far. -/
lemma extended_eq {w : Vector Word 64} {M : ℕ → Word} (hi : 16 ≤ i)
    (hw : ∀ t < i, w[t]? = some (Sha256.schedule M t)) :
    extended w i = Sha256.schedule M i := by
  have hget : ∀ t < i, w[t]! = Sha256.schedule M t := fun t ht =>
    get!_of_get? (hw t ht)
  rw [extended, Sha256.schedule_of_ge hi, hget (i - 15) (by omega), hget (i - 2) (by omega),
    hget (i - 16) (by omega), hget (i - 7) (by omega), Sha256.lower0, Sha256.lower1]
  simp only [rotr_eq _ (show 7 < 32 by norm_num), rotr_eq _ (show 18 < 32 by norm_num),
    rotr_eq _ (show 17 < 32 by norm_num), rotr_eq _ (show 19 < 32 by norm_num)]
  ac_rfl

/-- The first loop loads the block. -/
lemma loads_block (block : ℕ → UInt8) (w : Vector Word 64) : ∀ t < 0 + 16, ((List.range' 0 16).foldl
    (fun w i => w.set! i (loaded block i)) w)[t]? = some (Sha256.schedule (blockAt block) t) := by
  refine @Runs.fill_eq Word 64 (fun _ => loaded block) (Sha256.schedule (blockAt block)) 16 0 w
    (by norm_num) (fun t ht => absurd ht (Nat.not_lt_zero t)) fun i _ hi _ _ => ?_
  rw [loaded_eq, Sha256.schedule_of_lt (by omega)]

/-- The second loop extends it. -/
lemma extends_loaded {w : Vector Word 64}
    (hw : ∀ t < 16, w[t]? = some (Sha256.schedule (blockAt block) t)) :
    ∀ t < 16 + 48, ((List.range' 16 48).foldl
      (fun w i => w.set! i (extended w i)) w)[t]? = some (Sha256.schedule (blockAt block) t) :=
  @Runs.fill_eq Word 64 extended (Sha256.schedule (blockAt block)) 48 16 w (by norm_num) hw
    fun _ hi _ _ hw => extended_eq hi hw

/-- **The array `w`** is the schedule of the block, whatever was in it. -/
lemma expand_eq (w : Vector Word 64) (ht : t < 64) :
    (expand w block)[t]! = Sha256.schedule (blockAt block) t := by
  have hw := extends_loaded (loads_block block w) t ht
  rw [expand]
  exact get!_of_get? hw

lemma mix_eq {w : Vector Word 64} {v : Vars} (hw : w[t]! = Sha256.schedule (blockAt block) t) :
    mix w v t = v.round (Sha256.constant t) (Sha256.schedule (blockAt block) t) := by
  have hK : K[t]! = Sha256.constant t := by
    have hget : ∀ l : List Word, l[t]! = l.getD t 0 := fun l => by
      rw [List.getElem!_eq_getElem?_getD, List.getD_eq_getElem?_getD]
      rfl
    rw [hget, K_eq, Sha256.constant]
  simp only [mix, Vars.round, hw, hK, Sha256.upper0, Sha256.upper1, Sha256.ch, Sha256.maj,
    rotr_eq _ (show 2 < 32 by norm_num), rotr_eq _ (show 6 < 32 by norm_num),
    rotr_eq _ (show 11 < 32 by norm_num), rotr_eq _ (show 13 < 32 by norm_num),
    rotr_eq _ (show 22 < 32 by norm_num), rotr_eq _ (show 25 < 32 by norm_num)]

/-- **One block** is compressed as the standard says. -/
lemma compress_eq (w : Vector Word 64) (state : Vars) :
    compress w state block = Sha256.compress state (blockAt block) := by
  have hloop : (List.range 64).foldl (mix (expand w block)) state =
      (List.range 64).foldl (fun v t => v.round (Sha256.constant t)
        (Sha256.schedule (blockAt block) t)) state :=
    List.foldl_ext _ _ _ fun v t ht => mix_eq (expand_eq w (List.mem_range.mp ht))
  rw [compress, Sha256.compress, hloop]
  simp only [BitVec.add_comm]

/-! ### The tail -/

section Tail

variable {tail : Vector UInt8 128} {data : ℕ → UInt8} {len j : ℕ}

/-- The message of `len` bytes at an address. -/
def messageAt (data : ℕ → UInt8) (len : ℕ) : List UInt8 := (List.range len).map data

lemma length_messageAt : (messageAt data len).length = len := by
  rw [messageAt, List.length_map, List.length_range]

lemma getElem?_messageAt (hj : j < len) : (messageAt data len)[j]? = some (data j) := by
  rw [messageAt, List.getElem?_map, List.getElem?_range hj, Option.map_some]

/-- A loop that writes backwards from the end of a part of the array. -/
lemma write_backwards {value : ℕ → UInt8} {last n : ℕ} (hlast : last ≤ 128) (hn : n ≤ last) :
    ((List.range n).foldl (fun tail i => tail.set! (last - 1 - i) (value i)) tail)[j]? =
      if last - n ≤ j ∧ j < last then some (value (last - 1 - j)) else tail[j]? := by
  induction n with
  | zero => rw [if_neg (by omega)]; rfl
  | succ n ih =>
      rw [List.range_succ, List.foldl_append, List.foldl_cons, List.foldl_nil]
      by_cases hj : j = last - 1 - n
      · rw [hj, Vector.getElem?_set!_self_of_lt (by omega), if_pos (by omega),
          show last - 1 - (last - 1 - n) = n by omega]
      · rw [Vector.getElem?_set!_ne (Ne.symm hj), ih (by omega)]
        by_cases hin : last - n ≤ j ∧ j < last
        · rw [if_pos hin, if_pos (by omega)]
        · rw [if_neg hin, if_neg (by omega)]

lemma getElem?_memcpy {src : ℕ → UInt8} {n : ℕ} (hj : j < 128) :
    (memcpy tail src n)[j]? = if j < n then some (src j) else tail[j]? := by
  rw [memcpy, Vector.getElem?_ofFn, dif_pos hj]
  split
  · rfl
  · rw [Vector.getElem?_eq_getElem hj]
    rfl

lemma getElem?_memset {start n : ℕ} {value : UInt8} (hj : j < 128) :
    (memset tail start value n)[j]? =
      if start ≤ j ∧ j < start + n then some value else tail[j]? := by
  rw [memset, Vector.getElem?_ofFn, dif_pos hj]
  split
  · rfl
  · rw [Vector.getElem?_eq_getElem hj]
    rfl

lemma tailLength_eq : tailLength (len - len / 64 * 64) = 64 * Sha256.tailBlocks len := by
  rw [tailLength, Sha256.tailBlocks]
  split_ifs <;> omega

/-- A byte of the length in bits. -/
lemma lengthByte_eq (hlen : len < 2 ^ 61) (i : ℕ) :
    (⟨((BitVec.ofNat 64 len * 8) >>> (8 * i)).setWidth 8⟩ : UInt8) =
      UInt8.ofNat (8 * len / 256 ^ i) := by
  apply UInt8.toNat_inj.mp
  have hbits : (BitVec.ofNat 64 len * 8).toNat = 8 * len := by
    rw [BitVec.toNat_mul, BitVec.toNat_ofNat]
    simp
    omega
  rw [UInt8.toNat_ofNat']
  show (((BitVec.ofNat 64 len * 8) >>> (8 * i)).setWidth 8).toNat = _
  rw [BitVec.toNat_setWidth, BitVec.toNat_ushiftRight, hbits, Nat.shiftRight_eq_div_pow, pow_mul,
    show (2 : ℕ) ^ 8 = 256 by norm_num]

/-- **The tail** is the end of the padded message. -/
lemma tailBytes_eq (hlen : len < 2 ^ 61) (hj : j < tailLength (len - len / 64 * 64)) :
    (tailBytes tail data len)[j]? = (Sha256.pad (messageAt data len))[64 * (len / 64) + j]? := by
  have htail := @tailLength_eq len
  have htwo : Sha256.tailBlocks len = 1 ∨ Sha256.tailBlocks len = 2 := by
    rw [Sha256.tailBlocks]
    split <;> simp
  have hzeros : len + 1 + Sha256.zeroBits (8 * len) / 8 + 8 =
      64 * (len / 64) + 64 * Sha256.tailBlocks len := by
    have hlength := Sha256.length_pad (messageAt data len)
    rw [Sha256.pad, List.length_append, List.length_cons, List.length_append,
      List.length_replicate, Sha256.length_lengthBytes, length_messageAt] at hlength
    omega
  have hrest : len - len / 64 * 64 = len % 64 := by omega
  rw [htail] at hj
  rw [Sha256.getElem?_pad, length_messageAt, tailBytes, htail, hrest,
    write_backwards (by omega) (by omega)]
  by_cases hlast : 64 * Sha256.tailBlocks len - 8 ≤ j
  · rw [if_pos ⟨hlast, hj⟩, if_neg (by omega), if_neg (by omega), if_neg (by omega),
      lengthByte_eq hlen, Sha256.getElem?_lengthBytes (by omega)]
    congr 4
    omega
  · rw [if_neg fun h => hlast h.1, getElem?_memset (by omega)]
    rcases lt_trichotomy j (len % 64) with hcopied | hmark | hzero
    · rw [if_neg (by omega), Vector.getElem?_set!_ne (by omega), getElem?_memcpy (by omega),
        if_pos hcopied, if_pos (by omega), getElem?_messageAt (by omega), Nat.mul_comm]
    · rw [if_neg (by omega), hmark, Vector.getElem?_set!_self_of_lt (by omega), if_neg (by omega),
        if_pos (by omega)]
    · rw [if_pos (by omega), if_neg (by omega), if_neg (by omega), if_pos (by omega)]

/-- The words of a block of the padded message, wherever the block is read from. -/
lemma compress_block {padded : List UInt8} {i : ℕ}
    (hblock : ∀ j < 64, padded[64 * i + j]? = some (block j)) (w : Vector Word 64) (state : Vars) :
    compress w state block = Sha256.compress state (Sha256.blockWord padded i) := by
  rw [compress_eq]
  refine Sha256.compress_congr (fun t ht => ?_) state
  have hbyte : ∀ j < 4, padded.getD (64 * i + 4 * t + j) 0 = block (4 * t + j) := fun j hj => by
    rw [List.getD_eq_getElem?_getD, Nat.add_assoc, hblock (4 * t + j) (by omega), Option.getD_some]
  rw [blockAt, Sha256.blockWord]
  simp only [hbyte 0, hbyte 1, hbyte 2, hbyte 3, Nat.reduceLT]
  rfl

/-- The blocks that are compressed in place. -/
lemma foldl_fullBlocks (w : ℕ → Vector Word 64) (data : ℕ → UInt8) (len : ℕ) :
    (List.range (len / 64)).foldl
        (fun state i => compress (w i) state fun j => data (i * 64 + j)) initialState =
      (List.range (len / 64)).foldl (fun hash i =>
        Sha256.compress hash (Sha256.blockWord (Sha256.pad (messageAt data len)) i))
        Sha256.initial := by
  rw [initialState_eq]
  refine List.foldl_ext _ _ _ fun state i hi => compress_block (fun j hj => ?_) _ _
  have hi : i < len / 64 := List.mem_range.mp hi
  rw [Sha256.getElem?_pad, length_messageAt, if_pos (by omega), getElem?_messageAt (by omega),
    Nat.mul_comm]

/-- A block of the tail is a block of the padded message. -/
lemma compress_tail (hlen : len < 2 ^ 61) {k : ℕ} (hk : k < Sha256.tailBlocks len)
    (w : Vector Word 64) (state : Vars) :
    (compress w state fun j => (tailBytes tail data len)[64 * k + j]!) = Sha256.compress state
      (Sha256.blockWord (Sha256.pad (messageAt data len)) (len / 64 + k)) := by
  refine compress_block (fun j hj => ?_) _ _
  have htail := @tailLength_eq len
  have hbyte : (tailBytes tail data len)[64 * k + j]? =
      (Sha256.pad (messageAt data len))[64 * (len / 64) + (64 * k + j)]? :=
    tailBytes_eq hlen (by omega)
  have hsize : 64 * k + j < 128 := by
    have hle : Sha256.tailBlocks len ≤ 2 := by
      rw [Sha256.tailBlocks]
      split <;> omega
    omega
  rw [show 64 * (len / 64 + k) + j = 64 * (len / 64) + (64 * k + j) by omega, ← hbyte,
    Vector.getElem?_eq_getElem hsize, getElem!_pos (tailBytes tail data len) _ hsize]

/-- **The state** at the end is the hash value of the message. -/
lemma state_eq (hlen : len < 2 ^ 61) (w : ℕ → Vector Word 64) :
    (let state := (List.range (len / 64)).foldl
      (fun state i => compress (w i) state fun j => data (i * 64 + j)) initialState
    let state := compress (w (len / 64)) state fun j => (tailBytes tail data len)[j]!
    if tailLength (len - len / 64 * 64) = 128 then
      compress (w (len / 64 + 1)) state fun j => (tailBytes tail data len)[64 + j]!
    else state) = Sha256.hash (messageAt data len) := by
  have hfirst := fun state => @compress_tail tail data len hlen 0 (by
    rw [Sha256.tailBlocks]
    split <;> omega) (w (len / 64)) state
  simp only [Nat.mul_zero, Nat.zero_add, Nat.add_zero] at hfirst
  rw [Sha256.hash, Sha256.length_pad, length_messageAt, Nat.mul_div_cancel_left _ (by norm_num)]
  simp only [foldl_fullBlocks, hfirst, tailLength_eq]
  by_cases htwo : Sha256.tailBlocks len = 2
  · have hsecond := fun state => @compress_tail tail data len hlen 1 (by omega)
      (w (len / 64 + 1)) state
    rw [if_pos (by omega), htwo, List.range_succ, List.range_succ, List.foldl_append,
      List.foldl_append]
    exact hsecond _
  · have hone : Sha256.tailBlocks len = 1 := by
      rw [Sha256.tailBlocks] at htwo ⊢
      split at htwo
      · rw [if_pos ‹_›]
      · exact absurd rfl htwo
    rw [if_neg (by omega), hone, List.range_succ, List.foldl_append]
    rfl

end Tail

/-! ### The digits -/

lemma HEX_eq {n : ℕ} (hn : n < 16) : HEX[n]! = Nat.digitChar n := by
  revert n
  decide

/-- The two digits of a byte of a word. -/
lemma byteDigits_eq (x : Word) (s : ℕ) :
    (((x >>> s).setWidth 8 : BitVec 8) >>> 4).toNat = x.toNat / 2 ^ (s + 4) % 16 ∧
      ((x >>> s).setWidth 8 &&& 0xf : BitVec 8).toNat = x.toNat / 2 ^ s % 16 := by
  have hbyte : ((x >>> s).setWidth 8).toNat = x.toNat / 2 ^ s % 2 ^ 8 := by
    rw [BitVec.toNat_setWidth, BitVec.toNat_ushiftRight, Nat.shiftRight_eq_div_pow]
  constructor
  · rw [BitVec.toNat_ushiftRight, hbyte, Nat.shiftRight_eq_div_pow, pow_add,
      ← Nat.div_div_eq_div_mul]
    generalize x.toNat / 2 ^ s = m
    omega
  · rw [BitVec.toNat_and, hbyte, show (0xf : BitVec 8).toNat = 2 ^ 4 - 1 by rfl,
      Nat.and_two_pow_sub_one_eq_mod]
    generalize x.toNat / 2 ^ s = m
    omega

lemma hexDigits_eq (x : Word) : hexDigits x = Sha256.hexWord x := by
  have hdigit : ∀ m, HEX[m % 16]! = Nat.digitChar (m % 16) := fun m =>
    HEX_eq (Nat.mod_lt m (by norm_num))
  rw [hexDigits, Sha256.hexWord]
  simp only [byteDigits_eq, hdigit]
  rfl

/-- **`sha256_hex`** computes SHA-256: whatever its arrays held before, and
whatever follows the data, the text is the digest of the message, because the
tail is the end of the padded message. -/
theorem sha256Hex_eq (w : ℕ → Vector Word 64) (tail : Vector UInt8 128) (data : ℕ → UInt8)
    (len : ℕ) (hlen : len < 2 ^ 61) :
    sha256Hex w tail data len = Sha256.digest (messageAt data len) ++ [Char.ofNat 0] ∧
      Sha256.pad (messageAt data len) = messageAt data (len / 64 * 64) ++
        (tailBytes tail data len).toList.take (tailLength (len - len / 64 * 64)) := by
  constructor
  · have hdigits : hexDigits = Sha256.hexWord := funext hexDigits_eq
    rw [sha256Hex, state_eq hlen, hdigits, Sha256.digest]
  · have htail := @tailLength_eq len
    refine List.ext_getElem? fun k => ?_
    rw [List.getElem?_append, length_messageAt]
    split
    · next hfull =>
        rw [getElem?_messageAt hfull, Sha256.getElem?_pad, length_messageAt, if_pos (by omega),
          getElem?_messageAt (by omega)]
    · next hrest =>
        rw [List.getElem?_take]
        split
        · next hk =>
            have hbyte := @tailBytes_eq tail data len _ hlen hk
            rw [← Vector.getElem?_toList] at hbyte
            rw [hbyte, show 64 * (len / 64) + (k - len / 64 * 64) = k by omega]
        · next hk =>
            refine List.getElem?_eq_none ?_
            rw [Sha256.length_pad, length_messageAt]
            omega

/-- The bytes of `abc`, and what may follow them. -/
def abc (i : ℕ) : UInt8 := [0x61, 0x62, 0x63].getD i 0xff

/-- The digest of `abc`. -/
theorem sha256Hex_abc :
    sha256Hex (fun _ => .replicate 64 7) (.replicate 128 9) abc 3 =
        Sha256.digest (messageAt abc 3) ++ [Char.ofNat 0] ∧
      Sha256.pad (messageAt abc 3) = messageAt abc 0 ++
        (tailBytes (.replicate 128 9) abc 3).toList.take 64 :=
  sha256Hex_eq (fun _ => .replicate 64 7) (.replicate 128 9) abc 3 (by norm_num)

example : sha256Hex (fun _ => .replicate 64 7) (.replicate 128 9) abc 3 =
    "ba7816bf8f01cfea414140de5dae2223b00361a396177a9cb410ff61f20015ad".toList ++
      [Char.ofNat 0] := by
  decide +kernel

end CrashFuzz.Shim
