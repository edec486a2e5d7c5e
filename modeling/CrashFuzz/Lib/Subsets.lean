import Mathlib.Tactic
import Mathlib.Algebra.BigOperators.Group.Finset.Basic
import Mathlib.Data.List.Sort

/-!
Subsets of a list, read off bit masks, and strictly sorted lists as finite sets.

* `pick` keeps the entries whose position satisfies a test; `pick_inj` and
  `exists_mask` say that the masks below `2 ^ n` name every subset of an
  `n`-entry list exactly once, the masks `0` and `2 ^ n - 1` being the two
  extremes (`pick_zero`, `pick_full`). `sum_unpicked` counts, over all masks,
  what they leave out.
* `sortedSet` is the ascending list of the distinct entries of a list, so that
  two of them are equal once they have the same members (`sortedSet_eq_iff`).
* `filterMap_getElem?_sublist`: the entries at ascending positions stand in
  their order.
* `shl32` and `bitAnd32` are the 32-bit shift and test of a language whose
  bitwise operators convert to signed 32-bit integers: the shift distance is
  taken modulo 32, and `1 << 31` is negative.
-/

namespace Subsets

variable {α : Type*}

/-! ### Picking the entries at chosen positions -/

/-- The entries of a list at the positions where `p` holds, in order. -/
def pick (p : ℕ → Bool) : List α → List α
  | [] => []
  | x :: xs => if p 0 then x :: pick (fun i => p (i + 1)) xs else pick (fun i => p (i + 1)) xs

@[simp] lemma pick_nil (p : ℕ → Bool) : pick p ([] : List α) = [] := rfl

lemma pick_sublist (p : ℕ → Bool) (xs : List α) : (pick p xs).Sublist xs := by
  induction xs generalizing p with
  | nil => simp
  | cons x xs ih =>
      rw [pick]
      split
      · exact (ih _).cons_cons x
      · exact (ih _).cons x

lemma mem_pick {p : ℕ → Bool} {xs : List α} {x : α} :
    x ∈ pick p xs ↔ ∃ i, xs[i]? = some x ∧ p i = true := by
  induction xs generalizing p with
  | nil => simp
  | cons y xs ih =>
      have hsplit : (∃ i, (y :: xs)[i]? = some x ∧ p i = true) ↔
          (y = x ∧ p 0 = true) ∨ ∃ i, xs[i]? = some x ∧ p (i + 1) = true := by
        constructor
        · rintro ⟨i, hi, hp⟩
          cases i with
          | zero => exact Or.inl ⟨by simpa using hi, hp⟩
          | succ i => exact Or.inr ⟨i, by simpa using hi, hp⟩
        · rintro (⟨rfl, hp⟩ | ⟨i, hi, hp⟩)
          · exact ⟨0, by simp, hp⟩
          · exact ⟨i + 1, by simpa using hi, hp⟩
      rw [hsplit, pick]
      by_cases h : p 0 = true
      · rw [if_pos h, List.mem_cons, ih, eq_comm (a := x)]
        simp [h]
      · rw [if_neg h, ih]
        simp [h]

lemma pick_congr {p q : ℕ → Bool} {xs : List α} (h : ∀ i < xs.length, p i = q i) :
    pick p xs = pick q xs := by
  induction xs generalizing p q with
  | nil => rfl
  | cons x xs ih =>
      have h0 : p 0 = q 0 := h 0 (by simp)
      have ht := ih (p := fun i => p (i + 1)) (q := fun i => q (i + 1))
        fun i hi => h (i + 1) (by simpa using hi)
      rw [pick, pick, h0, ht]

/-- Mask `0` picks nothing. -/
lemma pick_zero (xs : List α) : pick (Nat.testBit 0) xs = [] := by
  rw [List.eq_nil_iff_forall_not_mem]
  intro x hx
  obtain ⟨i, -, hi⟩ := mem_pick.mp hx
  simp at hi

/-- Mask `2 ^ n - 1` picks the whole list. -/
lemma pick_full (xs : List α) : pick (2 ^ xs.length - 1).testBit xs = xs := by
  have hall : ∀ xs : List α, pick (fun _ => true) xs = xs := by
    intro xs
    induction xs with
    | nil => rfl
    | cons x xs ih => simp [pick, ih]
  rw [pick_congr (q := fun _ => true), hall]
  intro i hi
  simp [Nat.testBit_two_pow_sub_one, hi]

/-- In a list without repetitions, membership of the `i`-th entry reads the
test off at `i`. -/
lemma getElem_mem_pick {p : ℕ → Bool} {xs : List α} (hxs : xs.Nodup) {i : ℕ}
    (hi : i < xs.length) : xs[i] ∈ pick p xs ↔ p i = true := by
  rw [mem_pick]
  constructor
  · rintro ⟨j, hj, hp⟩
    obtain ⟨hj', hval⟩ := List.getElem?_eq_some_iff.mp hj
    rwa [← (hxs.getElem_inj_iff).mp hval]
  · intro hp
    exact ⟨i, List.getElem?_eq_getElem hi, hp⟩

/-- Two tests that pick the same members agree at every position. -/
lemma pick_inj {p q : ℕ → Bool} {xs : List α} (hxs : xs.Nodup)
    (h : ∀ x, x ∈ pick p xs ↔ x ∈ pick q xs) : ∀ i < xs.length, p i = q i := by
  intro i hi
  have h1 := h xs[i]
  rw [getElem_mem_pick hxs hi, getElem_mem_pick hxs hi] at h1
  exact Bool.eq_iff_iff.mpr h1

/-- Two masks below `2 ^ n` that pick the same members are equal. -/
lemma mask_inj {m m' : ℕ} {xs : List α} (hxs : xs.Nodup) (hm : m < 2 ^ xs.length)
    (hm' : m' < 2 ^ xs.length)
    (h : ∀ x, x ∈ pick m.testBit xs ↔ x ∈ pick m'.testBit xs) : m = m' := by
  refine Nat.eq_of_testBit_eq fun i => ?_
  by_cases hi : i < xs.length
  · exact pick_inj hxs h i hi
  · have hpow : 2 ^ xs.length ≤ 2 ^ i := Nat.pow_le_pow_right (by norm_num) (by omega)
    rw [Nat.testBit_lt_two_pow (by omega), Nat.testBit_lt_two_pow (by omega)]

/-- Every subset is picked by a mask below `2 ^ n`. -/
lemma exists_mask {xs : List α} (hxs : xs.Nodup) (P : α → Prop) :
    ∃ m < 2 ^ xs.length, ∀ x, x ∈ pick m.testBit xs ↔ x ∈ xs ∧ P x := by
  classical
  set m := Nat.ofBits fun i : Fin xs.length => decide (P xs[i]) with hm
  refine ⟨m, Nat.ofBits_lt_two_pow _, fun x => ?_⟩
  constructor
  · intro hx
    have hmem := (pick_sublist _ _).subset hx
    obtain ⟨i, hi, rfl⟩ := List.mem_iff_getElem.mp hmem
    rw [getElem_mem_pick hxs hi, hm, Nat.testBit_ofBits_lt _ _ hi] at hx
    exact ⟨hmem, by simpa using hx⟩
  · rintro ⟨hmem, hP⟩
    obtain ⟨i, hi, rfl⟩ := List.mem_iff_getElem.mp hmem
    rw [getElem_mem_pick hxs hi, hm, Nat.testBit_ofBits_lt _ _ hi]
    simpa using hP

/-! ### Counting over all masks -/

/-- In a list without repetitions, what is not picked is what the opposite test
picks. -/
lemma filter_notMem_pick [DecidableEq α] {p : ℕ → Bool} {xs : List α} (hxs : xs.Nodup) :
    xs.filter (· ∉ pick p xs) = pick (fun i => !p i) xs := by
  induction xs generalizing p with
  | nil => rfl
  | cons x xs ih =>
      obtain ⟨hx, hxs⟩ := List.nodup_cons.mp hxs
      have htail : xs.filter (· ∉ pick p (x :: xs)) =
          xs.filter (· ∉ pick (fun i => p (i + 1)) xs) := by
        refine List.filter_congr fun y hy => ?_
        have hyx : y ≠ x := fun h => hx (h ▸ hy)
        rw [decide_eq_decide, pick]
        split
        · rw [List.mem_cons, or_iff_right hyx]
        · rfl
      rw [List.filter_cons, htail, ih hxs, pick, pick]
      cases p 0 with
      | true => simp
      | false =>
          have hpick : x ∉ pick (fun i => p (i + 1)) xs :=
            fun h => hx ((pick_sublist _ _).subset h)
          simpa using hpick

/-- A sum over twice as many numbers, by the parity of each. -/
lemma sum_range_two_mul (F : ℕ → ℕ) (n : ℕ) :
    ∑ m ∈ Finset.range (2 * n), F m = ∑ m ∈ Finset.range n, (F (2 * m) + F (2 * m + 1)) := by
  induction n with
  | zero => rfl
  | succ n ih =>
      rw [Nat.mul_succ, Finset.sum_range_succ, Finset.sum_range_succ, ih, Finset.sum_range_succ,
        add_assoc]

/-- Every entry is left out by half of the masks. -/
theorem sum_unpicked (f : α → ℕ) (xs : List α) :
    ∑ m ∈ Finset.range (2 ^ xs.length), ((pick (fun i => !m.testBit i) xs).map f).sum =
      2 ^ (xs.length - 1) * (xs.map f).sum := by
  induction xs with
  | nil => rfl
  | cons x xs ih =>
      have hstep : ∀ m : ℕ,
          ((pick (fun i => !(2 * m).testBit i) (x :: xs)).map f).sum +
            ((pick (fun i => !(2 * m + 1).testBit i) (x :: xs)).map f).sum =
          f x + 2 * ((pick (fun i => !m.testBit i) xs).map f).sum := by
        intro m
        have hodd : (2 * m + 1) / 2 = m := by omega
        simp only [pick, Nat.testBit_zero, Nat.testBit_succ, hodd, Nat.mul_div_cancel_left m
          Nat.two_pos, Nat.mul_mod_right, Nat.mul_add_mod]
        simp
        omega
      have hhalf : 2 * (2 ^ (xs.length - 1) * (xs.map f).sum) =
          2 ^ xs.length * (xs.map f).sum := by
        cases xs with
        | nil => rfl
        | cons y ys =>
            rw [List.length_cons, Nat.add_sub_cancel, pow_succ]
            ring
      rw [List.length_cons, pow_succ', sum_range_two_mul, Finset.sum_congr rfl fun m _ => hstep m,
        Finset.sum_add_distrib, ← Finset.mul_sum, ih, hhalf, Nat.add_sub_cancel, List.map_cons,
        List.sum_cons, Finset.sum_const, Finset.card_range, smul_eq_mul, mul_add]

/-! ### Strictly sorted lists -/

section Sorted

variable [LinearOrder α]

/-- Sorting a list without repetitions gives a strictly ascending list. -/
lemma pairwise_lt_insertionSort {xs : List α} (hxs : xs.Nodup) :
    (xs.insertionSort (· ≤ ·)).Pairwise (· < ·) := by
  have hle := List.pairwise_insertionSort (· ≤ ·) xs
  have hne : (xs.insertionSort (· ≤ ·)).Nodup :=
    (List.perm_insertionSort (· ≤ ·) xs).nodup_iff.mpr hxs
  exact (hle.and hne).imp fun h => lt_of_le_of_ne h.1 h.2

/-- The distinct entries of a list, ascending. -/
def sortedSet (xs : List α) : List α := xs.dedup.insertionSort (· ≤ ·)

@[simp] lemma mem_sortedSet {xs : List α} {x : α} : x ∈ sortedSet xs ↔ x ∈ xs := by
  simp [sortedSet]

lemma pairwise_sortedSet (xs : List α) : (sortedSet xs).Pairwise (· < ·) :=
  pairwise_lt_insertionSort (List.nodup_dedup xs)

/-- A strictly ascending list is determined by its members. -/
lemma eq_of_mem_iff {xs ys : List α} (hx : xs.Pairwise (· < ·)) (hy : ys.Pairwise (· < ·))
    (h : ∀ a, a ∈ xs ↔ a ∈ ys) : xs = ys := by
  have hirr : Std.Irrefl (α := α) (· < ·) := ⟨lt_irrefl⟩
  exact List.Pairwise.eq_of_mem_iff hx hy h

lemma sortedSet_eq_iff {xs ys : List α} :
    sortedSet xs = sortedSet ys ↔ ∀ a, a ∈ xs ↔ a ∈ ys := by
  constructor
  · intro h a
    rw [← mem_sortedSet, h, mem_sortedSet]
  · intro h
    exact eq_of_mem_iff (pairwise_sortedSet _) (pairwise_sortedSet _) (by simpa using h)

/-- A prefix of a strictly ascending list holds every member below one of its
members. -/
lemma mem_take_of_lt {xs : List α} (hx : xs.Pairwise (· < ·)) {n : ℕ} {a b : α}
    (ha : a ∈ xs) (hb : b ∈ xs.take n) (hab : a < b) : a ∈ xs.take n := by
  have hsplit : a ∈ xs.take n ++ xs.drop n := by rwa [List.take_append_drop]
  rcases List.mem_append.mp hsplit with h | h
  · exact h
  · have hx' : (xs.take n ++ xs.drop n).Pairwise (· < ·) := by rwa [List.take_append_drop]
    exact absurd ((List.pairwise_append.mp hx').2.2 b hb a h) (not_lt.mpr hab.le)

/-- The members of a strictly ascending list below a bound form a prefix of it. -/
lemma mem_takeWhile_lt {xs : List α} (hx : xs.Pairwise (· < ·)) {a b : α} :
    b ∈ xs.takeWhile (· < a) ↔ b ∈ xs ∧ b < a := by
  induction xs with
  | nil => simp
  | cons x xs ih =>
      obtain ⟨hhead, htail⟩ := List.pairwise_cons.mp hx
      by_cases hxa : x < a
      · rw [List.takeWhile_cons_of_pos (by simpa using hxa), List.mem_cons, ih htail,
          List.mem_cons]
        constructor
        · rintro (rfl | ⟨hb, hba⟩)
          · exact ⟨Or.inl rfl, hxa⟩
          · exact ⟨Or.inr hb, hba⟩
        · rintro ⟨rfl | hb, hba⟩
          · exact Or.inl rfl
          · exact Or.inr ⟨hb, hba⟩
      · rw [List.takeWhile_cons_of_neg (by simpa using hxa)]
        refine iff_of_false (by simp) ?_
        rintro ⟨hb, hba⟩
        rcases List.mem_cons.mp hb with rfl | hb
        · exact hxa hba
        · exact hxa ((hhead b hb).trans hba)

/-- The members of a strictly ascending list that have fewer than `n` members
above them are its last `n`. -/
lemma mem_drop_iff {xs : List α} (hx : xs.Pairwise (· < ·)) {n : ℕ} {a : α} (ha : a ∈ xs) :
    a ∈ xs.drop n ↔ (xs.filter (a < ·)).length < xs.length - n := by
  obtain ⟨i, hi, rfl⟩ := List.mem_iff_getElem.mp ha
  have hcount : (xs.filter (xs[i] < ·)).length = xs.length - (i + 1) := by
    have hlow : (xs.take (i + 1)).filter (xs[i] < ·) = [] := by
      rw [List.filter_eq_nil_iff]
      intro b hb
      obtain ⟨j, hj, rfl⟩ := List.mem_take_iff_getElem.mp hb
      have hji : xs[j] ≤ xs[i] := by
        rcases Nat.lt_or_ge j i with hlt | hge
        · exact (List.pairwise_iff_getElem.mp hx j i (by omega) hi hlt).le
        · have hj' : j = i := by omega
          simp [hj']
      simpa using hji
    have hhigh : (xs.drop (i + 1)).filter (xs[i] < ·) = xs.drop (i + 1) := by
      rw [List.filter_eq_self]
      intro b hb
      obtain ⟨j, hj, rfl⟩ := List.mem_drop_iff_getElem.mp hb
      simpa using List.pairwise_iff_getElem.mp hx i (i + 1 + j) hi (by omega) (by omega)
    calc (xs.filter (xs[i] < ·)).length
        = ((xs.take (i + 1) ++ xs.drop (i + 1)).filter (xs[i] < ·)).length := by
          rw [List.take_append_drop]
      _ = xs.length - (i + 1) := by
          rw [List.filter_append, hlow, hhigh, List.nil_append, List.length_drop]
  rw [hcount]
  constructor
  · intro h
    obtain ⟨j, hj, hval⟩ := List.mem_drop_iff_getElem.mp h
    have hnodup : xs.Nodup := hx.imp fun h => ne_of_lt h
    have : n + j = i := (hnodup.getElem_inj_iff).mp hval
    omega
  · intro h
    exact List.mem_drop_iff_getElem.mpr ⟨i - n, by omega, by congr 1; omega⟩

/-- The members of a strictly ascending list that have at least `length - n`
members above them are its first `n`. -/
lemma mem_take_iff {xs : List α} (hx : xs.Pairwise (· < ·)) {n : ℕ} {a : α} (ha : a ∈ xs) :
    a ∈ xs.take n ↔ xs.length - n ≤ (xs.filter (a < ·)).length := by
  have hnodup : xs.Nodup := hx.imp fun h => ne_of_lt h
  have hdisj : (xs.take n).Disjoint (xs.drop n) :=
    List.disjoint_of_nodup_append (by rwa [List.take_append_drop])
  have hcover : a ∈ xs.take n ∨ a ∈ xs.drop n := by
    rwa [← List.mem_append, List.take_append_drop]
  rw [← not_lt, ← mem_drop_iff hx ha]
  constructor
  · exact fun h1 h2 => hdisj h1 h2
  · exact fun h => hcover.resolve_right h

/-- A strictly ascending list of members that holds what is below its own is a
prefix. -/
lemma prefix_of_closed {xs ys : List α} (hx : xs.Pairwise (· < ·)) (hy : ys.Pairwise (· < ·))
    (hsub : ∀ a ∈ ys, a ∈ xs) (hclosed : ∀ a ∈ ys, ∀ b ∈ xs, b < a → b ∈ ys) : ys <+: xs := by
  induction ys generalizing xs with
  | nil => exact List.nil_prefix
  | cons y ys ih =>
      cases xs with
      | nil => exact absurd (hsub y List.mem_cons_self) List.not_mem_nil
      | cons x xs =>
          obtain ⟨hxs, hxt⟩ := List.pairwise_cons.mp hx
          obtain ⟨hys, hyt⟩ := List.pairwise_cons.mp hy
          -- both lists start with their least member
          have hhead : y = x := by
            rcases List.mem_cons.mp (hsub y List.mem_cons_self) with heq | hmem
            · exact heq
            · have hlow := hclosed y List.mem_cons_self x List.mem_cons_self (hxs y hmem)
              rcases List.mem_cons.mp hlow with heq | hlow
              · exact heq.symm
              · exact absurd (hys x hlow) (hxs y hmem).not_gt
          subst hhead
          refine List.cons_prefix_cons.mpr
            ⟨rfl, ih hxt hyt (fun a ha => ?_) fun a ha b hb hba => ?_⟩
          · refine (List.mem_cons.mp (hsub a (List.mem_cons_of_mem _ ha))).resolve_left ?_
            exact (hys a ha).ne'
          · have hmem := hclosed a (List.mem_cons_of_mem _ ha) b (List.mem_cons_of_mem _ hb) hba
            exact (List.mem_cons.mp hmem).resolve_left (hxs b hb).ne'

end Sorted

/-! ### Slices -/

/-- The position an index of `Array.prototype.slice` denotes: a negative one
counts from the end, and both ends are clamped. -/
def sliceIndex (length : ℕ) (i : ℤ) : ℕ :=
  if i < 0 then (length + i).toNat else min i.toNat length

/-- `xs.slice(i)`. -/
def sliceFrom (xs : List α) (i : ℤ) : List α := xs.drop (sliceIndex xs.length i)

/-- `xs.slice(0, i)`. -/
def sliceTo (xs : List α) (i : ℤ) : List α := xs.take (sliceIndex xs.length i)

/-! ### 32-bit shifts -/

/-- `1 << n` on signed 32-bit integers: the distance is taken modulo 32. -/
def shl32 (n : ℕ) : BitVec 32 := 1#32 <<< (n % 32)

/-- `mask & (1 << bit)` read as a condition. -/
def bitAnd32 (mask bit : ℕ) : Bool := (BitVec.ofNat 32 mask &&& shl32 bit) != 0#32

/-- The number of masks `0, 1, …` below `1 << n`, none when `1 << n` is
negative. -/
def maskCount (n : ℕ) : ℕ := (shl32 n).toInt.toNat

lemma maskCount_eq {n : ℕ} (hn : n ≤ 30) : maskCount n = 2 ^ n := by
  interval_cases n <;> decide

/-- There are never more masks than 30 bits have. -/
lemma maskCount_le (n : ℕ) : maskCount n ≤ 2 ^ 30 := by
  have hred : maskCount n = maskCount (n % 32) := by simp [maskCount, shl32]
  have hlt : n % 32 < 32 := Nat.mod_lt _ (by norm_num)
  rw [hred]
  generalize n % 32 = r at hlt
  interval_cases r <;> decide

/-- No mask is enumerated exactly when the shift reaches the sign bit. -/
lemma maskCount_pos_iff (n : ℕ) : 0 < maskCount n ↔ n % 32 ≠ 31 := by
  have hred : maskCount n = maskCount (n % 32) := by simp [maskCount, shl32]
  have hlt : n % 32 < 32 := Nat.mod_lt _ (by norm_num)
  rw [hred]
  generalize n % 32 = r at hlt
  interval_cases r <;> decide

/-- Below the sign bit the test reads the bit of the mask. -/
lemma bitAnd32_eq {mask bit : ℕ} (hbit : bit < 32) : bitAnd32 mask bit = mask.testBit bit := by
  have hread : (BitVec.ofNat 32 mask).getLsbD bit = mask.testBit bit := by
    rw [BitVec.getLsbD_ofNat, decide_eq_true hbit, Bool.true_and]
  have hpow : BitVec.twoPow 32 bit ≠ 0#32 := by
    intro h
    have h0 : 2 ^ bit % 2 ^ 32 = 0 := by simpa using congrArg BitVec.toNat h
    rw [Nat.mod_eq_of_lt (Nat.pow_lt_pow_right (by norm_num) hbit)] at h0
    exact absurd h0 (by positivity)
  rw [bitAnd32, shl32, Nat.mod_eq_of_lt hbit, ← BitVec.twoPow_eq, BitVec.and_twoPow, hread]
  cases mask.testBit bit with
  | false => simp
  | true => simpa using hpow

/-- The sublists that the masks below `1 << n` pick from an `n`-entry list. -/
def picked (xs : List α) : List (List α) :=
  (List.range (maskCount xs.length)).map fun mask => pick (bitAnd32 mask) xs

/-- Every sublist of a strictly ascending list is picked once, exactly when the
list has at most 30 entries. -/
theorem picked_perm_iff [LinearOrder α] {xs : List α} (hx : xs.Pairwise (· < ·)) :
    (picked xs).Perm xs.sublists ↔ xs.length ≤ 30 := by
  have hnodup : xs.Nodup := hx.imp ne_of_lt
  constructor
  · intro hperm
    have hlen := hperm.length_eq
    rw [picked, List.length_map, List.length_range, List.length_sublists] at hlen
    have hle := maskCount_le xs.length
    rw [hlen] at hle
    exact (Nat.pow_le_pow_iff_right (by decide)).mp hle
  · intro hle
    have hpicked : picked xs =
        (List.range (2 ^ xs.length)).map fun mask => pick mask.testBit xs := by
      rw [picked, maskCount_eq hle]
      refine List.map_congr_left fun mask _ => pick_congr fun i hi => ?_
      exact bitAnd32_eq (by omega)
    rw [hpicked]
    refine (List.perm_ext_iff_of_nodup (List.Nodup.map_on ?_ List.nodup_range)
      (List.nodup_sublists.mpr hnodup)).mpr fun ys => ?_
    · intro mask hmask mask' hmask' heq
      exact mask_inj hnodup (List.mem_range.mp hmask) (List.mem_range.mp hmask')
        fun _ => by rw [heq]
    · rw [List.mem_map, List.mem_sublists]
      constructor
      · rintro ⟨mask, -, rfl⟩
        exact pick_sublist _ _
      · intro hys
        obtain ⟨mask, hmask, hmem⟩ := exists_mask hnodup (· ∈ ys)
        refine ⟨mask, List.mem_range.mpr hmask, ?_⟩
        refine eq_of_mem_iff (hx.sublist (pick_sublist _ _)) (hx.sublist hys) fun y => ?_
        rw [hmem]
        exact ⟨fun h => h.2, fun h => ⟨hys.subset h, h⟩⟩

/-! ### The entries at some positions -/

/-- The entries at some positions. -/
lemma filterMap_getElem? {xs : List α} {ps : List ℕ} (hlt : ∀ p ∈ ps, p < xs.length) :
    ps.filterMap (xs[·]?) = (ps.pmap Fin.mk hlt).map (xs[·]) := by
  induction ps with
  | nil => rfl
  | cons p ps ih =>
      have hp : p < xs.length := hlt p List.mem_cons_self
      rw [List.filterMap_cons_some (List.getElem?_eq_getElem hp),
        ih fun q hq => hlt q (List.mem_cons_of_mem p hq)]
      rfl

/-- The entries at ascending positions stand in their order. -/
lemma filterMap_getElem?_sublist {xs : List α} {ps : List ℕ} (hasc : ps.Pairwise (· < ·))
    (hlt : ∀ p ∈ ps, p < xs.length) : (ps.filterMap (xs[·]?)).Sublist xs := by
  rw [filterMap_getElem? hlt]
  exact List.map_getElem_sublist (hasc.pmap hlt fun _ _ _ _ h => h)

lemma length_filterMap_getElem? {xs : List α} {ps : List ℕ} (hlt : ∀ p ∈ ps, p < xs.length) :
    (ps.filterMap (xs[·]?)).length = ps.length := by
  rw [filterMap_getElem? hlt, List.length_map, List.length_pmap]

lemma head?_filterMap_getElem? {xs : List α} {ps : List ℕ} (hlt : ∀ p ∈ ps, p < xs.length) :
    (ps.filterMap (xs[·]?)).head? = ps.head?.bind (xs[·]?) := by
  cases ps with
  | nil => rfl
  | cons p ps =>
      have hp := List.getElem?_eq_getElem (hlt p List.mem_cons_self)
      rw [List.filterMap_cons_some hp, List.head?_cons, List.head?_cons, Option.bind_some, hp]

lemma getLast?_filterMap_getElem? {xs : List α} {ps : List ℕ} (hlt : ∀ p ∈ ps, p < xs.length) :
    (ps.filterMap (xs[·]?)).getLast? = ps.getLast?.bind (xs[·]?) := by
  induction ps using List.reverseRecOn with
  | nil => rfl
  | append_singleton ps p =>
      have hlast : p < xs.length := hlt p (List.mem_append_right _ (List.mem_singleton_self p))
      have hp := List.getElem?_eq_getElem hlast
      rw [List.filterMap_append, List.filterMap_cons_some hp, List.filterMap_nil,
        List.getLast?_concat, List.getLast?_concat, Option.bind_some, hp]

/-- A function of the positions below a bound is one of the first entries. -/
lemma flatMap_range_eq_flatMap_take {β : Type*} {f : ℕ → List β} {g : α → List β} {l : List α}
    {m : ℕ} (h : ∀ i e, l[i]? = some e → f i = if i < m then g e else []) :
    (List.range l.length).flatMap f = (l.take m).flatMap g := by
  induction l using List.reverseRecOn with
  | nil => simp
  | append_singleton l e ih =>
      have hinit : ∀ i e', l[i]? = some e' → f i = if i < m then g e' else [] := fun i e' hi =>
        h i e' (List.getElem?_append_left (List.getElem?_eq_some_iff.mp hi).1 ▸ hi)
      have hlast : f l.length = if l.length < m then g e else [] :=
        h l.length e List.getElem?_concat_length
      rw [List.length_append, List.length_singleton, List.range_succ, List.flatMap_append,
        List.flatMap_singleton, ih hinit, List.take_append, List.flatMap_append, hlast]
      congr 1
      split
      · next hlt =>
          rw [List.take_of_length_le (Nat.sub_pos_of_lt hlt), List.flatMap_singleton]
      · next hge =>
          rw [Nat.sub_eq_zero_of_le (not_lt.mp hge), List.take_zero, List.flatMap_nil]

end Subsets
