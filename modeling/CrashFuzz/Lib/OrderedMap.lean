import Mathlib.Tactic

/-!
Maps that remember the order in which their keys were first set.

* `OrderedMap`: the entries in order, no key twice.
* `get?`, `set`: setting a key again keeps its place. `get?_set`,
  `mem_keys_set` and `mem_entries_iff` say what each leaves of the other.
  `foldl_set`: a map is what the settings of its entries make.
* `entries_set_of_mem`, `entries_set_of_notMem`: setting a key replaces its
  entry or adds one at the end.
* `record`: a key that is there has its value changed, a new one is added.
  `map_get?_foldl_record`: what the changes leave alone comes from the first
  recording of a key.
-/

/-- A map from `κ` to `ν` whose entries stand in the order of their first
setting. -/
structure OrderedMap (κ ν : Type*) where
  entries : List (κ × ν)
  nodup : (entries.map Prod.fst).Nodup

namespace OrderedMap

variable {κ ν : Type*}

/-- The keys in order. -/
def keys (m : OrderedMap κ ν) : List κ := m.entries.map Prod.fst

/-- The values in the order of their keys. -/
def values (m : OrderedMap κ ν) : List ν := m.entries.map Prod.snd

/-- The map without entries. -/
def empty : OrderedMap κ ν := ⟨[], List.nodup_nil⟩

@[simp] lemma entries_empty : (empty : OrderedMap κ ν).entries = [] := rfl

@[simp] lemma keys_empty : (empty : OrderedMap κ ν).keys = [] := rfl

variable [DecidableEq κ]

/-- The value of a key. -/
def get? (m : OrderedMap κ ν) (k : κ) : Option ν :=
  (m.entries.find? (·.1 = k)).map Prod.snd

/-- The entries with the value of `k` replaced. -/
def replaced (es : List (κ × ν)) (k : κ) (v : ν) : List (κ × ν) :=
  es.map fun e => if e.1 = k then (k, v) else e

lemma keys_replaced (es : List (κ × ν)) (k : κ) (v : ν) :
    (replaced es k v).map Prod.fst = es.map Prod.fst := by
  rw [replaced, List.map_map]
  refine List.map_congr_left fun e _ => ?_
  by_cases h : e.1 = k
  · simp [h]
  · simp [h]

/-- A key that is there gets a new value in its place, a new one comes last. -/
def set (m : OrderedMap κ ν) (k : κ) (v : ν) : OrderedMap κ ν :=
  if h : k ∈ m.keys then
    ⟨replaced m.entries k v, (keys_replaced m.entries k v).symm ▸ m.nodup⟩
  else
    ⟨m.entries ++ [(k, v)], by
      rw [List.map_append, List.nodup_append]
      refine ⟨m.nodup, List.nodup_singleton _, fun a ha b hb hab => h ?_⟩
      rw [List.map_singleton, List.mem_singleton] at hb
      have hak : a = k := hab.trans hb
      exact hak ▸ ha⟩

variable {m : OrderedMap κ ν} {k k' : κ} {v v' : ν}

@[simp] lemma get?_empty : (empty : OrderedMap κ ν).get? k = none := rfl

lemma entries_set_of_mem (h : k ∈ m.keys) : (m.set k v).entries = replaced m.entries k v := by
  rw [set, dif_pos h]

lemma entries_set_of_notMem (h : k ∉ m.keys) : (m.set k v).entries = m.entries ++ [(k, v)] := by
  rw [set, dif_neg h]

/-- An entry is what the map returns for its key. -/
lemma mem_entries_iff : (k, v) ∈ m.entries ↔ m.get? k = some v := by
  rw [get?]
  constructor
  · intro h
    have hkeys := m.nodup
    revert h hkeys
    generalize m.entries = es
    intro h hkeys
    induction es with
    | nil => simp at h
    | cons e es ih =>
        rw [List.map_cons, List.nodup_cons] at hkeys
        rcases List.mem_cons.mp h with rfl | h
        · simp
        · have hne : e.1 ≠ k := fun heq => hkeys.1 (heq ▸ List.mem_map_of_mem (f := Prod.fst) h)
          rw [List.find?_cons_of_neg (by simpa using hne)]
          exact ih h hkeys.2
  · intro h
    obtain ⟨e, he, rfl⟩ := Option.map_eq_some_iff.mp h
    obtain rfl : e.1 = k := by simpa using List.find?_some he
    exact List.mem_of_find?_eq_some he

lemma mem_keys_iff : k ∈ m.keys ↔ ∃ v, m.get? k = some v := by
  rw [keys, List.mem_map]
  constructor
  · rintro ⟨⟨a, v⟩, he, rfl⟩
    exact ⟨v, mem_entries_iff.mp he⟩
  · rintro ⟨v, hv⟩
    exact ⟨(k, v), mem_entries_iff.mpr hv, rfl⟩

lemma get?_eq_none_iff : m.get? k = none ↔ k ∉ m.keys := by
  rw [mem_keys_iff]
  cases m.get? k <;> simp

lemma mem_values_iff : v ∈ m.values ↔ ∃ k, m.get? k = some v := by
  rw [values, List.mem_map]
  constructor
  · rintro ⟨⟨k, a⟩, he, rfl⟩
    exact ⟨k, mem_entries_iff.mp he⟩
  · rintro ⟨k, hk⟩
    exact ⟨(k, v), mem_entries_iff.mpr hk, rfl⟩

/-- What the map returns after a setting. -/
lemma get?_set : (m.set k v).get? k' = if k' = k then some v else m.get? k' := by
  by_cases hk : k ∈ m.keys
  · rw [get?, entries_set_of_mem hk, replaced, List.find?_map]
    have hcongr : (fun e : κ × ν => decide (e.1 = k')) ∘ (fun e => if e.1 = k then (k, v) else e) =
        fun e => decide (e.1 = k') := by
      funext e
      by_cases he : e.1 = k <;> simp [he]
    rw [hcongr]
    obtain ⟨w, hw⟩ := mem_keys_iff.mp hk
    by_cases hkk : k' = k
    · subst hkk
      obtain ⟨e, he, -⟩ := Option.map_eq_some_iff.mp hw
      have hek : e.1 = k' := by simpa using List.find?_some he
      rw [he]
      simp [hek]
    · rw [if_neg hkk, get?]
      cases hfind : m.entries.find? (fun e => decide (e.1 = k')) with
      | none => rfl
      | some e =>
          have hek : e.1 = k' := by simpa using List.find?_some hfind
          simp [hek, hkk]
  · rw [get?, entries_set_of_notMem hk, List.find?_append, Option.map_or, ← get?]
    by_cases hkk : k' = k
    · subst hkk
      rw [if_pos rfl, get?_eq_none_iff.mpr hk]
      simp
    · rw [if_neg hkk]
      simp [Ne.symm hkk]

@[simp] lemma get?_set_self : (m.set k v).get? k = some v := by
  rw [get?_set, if_pos rfl]

lemma get?_set_of_ne (h : k' ≠ k) : (m.set k v).get? k' = m.get? k' := by
  rw [get?_set, if_neg h]

lemma mem_keys_set : k' ∈ (m.set k v).keys ↔ k' = k ∨ k' ∈ m.keys := by
  rw [mem_keys_iff, get?_set, mem_keys_iff]
  by_cases hk : k' = k
  · simp [hk]
  · simp [hk]

/-- Entries with new keys are added in their order. -/
lemma entries_foldl_set {es : List (κ × ν)} (h : (m.keys ++ es.map Prod.fst).Nodup) :
    (es.foldl (fun m e => m.set e.1 e.2) m).entries = m.entries ++ es := by
  induction es generalizing m with
  | nil => simp
  | cons e es ih =>
      have hnew : e.1 ∉ m.keys := fun hmem =>
        List.disjoint_of_nodup_append h hmem List.mem_cons_self
      have hentries := entries_set_of_notMem (v := e.2) hnew
      have hkeys : (m.set e.1 e.2).keys = m.keys ++ [e.1] := by
        rw [keys, hentries, List.map_append]
        rfl
      rw [List.foldl_cons, ih (by rw [hkeys]; simpa using h), hentries, List.append_assoc,
        List.singleton_append]

/-- Setting the entries of a map one after the other makes that map. -/
lemma foldl_set : m.entries.foldl (fun m e => m.set e.1 e.2) empty = m := by
  have hentries : (m.entries.foldl (fun m e => m.set e.1 e.2) empty).entries = m.entries :=
    entries_foldl_set m.nodup
  cases hmade : m.entries.foldl (fun m e => m.set e.1 e.2) empty with
  | mk entries nodup =>
      rw [hmade] at hentries
      cases m
      cases hentries
      rfl

/-- If a projection of the values gives back their keys, it lists them. -/
lemma map_values (f : ν → κ) (h : ∀ k v, m.get? k = some v → f v = k) :
    m.values.map f = m.keys := by
  rw [values, keys, List.map_map]
  exact List.map_congr_left fun e he => h e.1 e.2 (mem_entries_iff.mp he)

/-! ### Recording -/

variable {ρ α : Type*} {again : ν → ν} {π : ν → ρ}

/-- Adds an entry, or changes the one that is there. -/
def record (m : OrderedMap κ ν) (k : κ) (v : ν) (again : ν → ν) : OrderedMap κ ν :=
  match m.get? k with
  | none => m.set k v
  | some old => m.set k (again old)

lemma map_get?_record (h : ∀ v, π (again v) = π v) :
    ((m.record k v again).get? k').map π =
      ((m.get? k').map π).or (if k = k' then some (π v) else none) := by
  by_cases hk : k = k'
  · subst hk
    rw [if_pos rfl, record]
    cases hold : m.get? k with
    | none => simp
    | some old => simp [h]
  · rw [if_neg hk, Option.or_none, record]
    split
    · rw [get?_set_of_ne (Ne.symm hk)]
    · rw [get?_set_of_ne (Ne.symm hk)]

/-- **The first recording stays**: what `again` leaves alone of a value comes
from before, else from the first element with its key. -/
theorem map_get?_foldl_record (h : ∀ v, π (again v) = π v) (key : α → κ) (value : α → ν)
    (xs : List α) :
    ((xs.foldl (fun m x => m.record (key x) (value x) again) m).get? k).map π =
      ((m.get? k).map π).or ((xs.find? (key · = k)).map fun x => π (value x)) := by
  induction xs generalizing m with
  | nil => simp
  | cons x xs ih =>
      rw [List.foldl_cons, ih, map_get?_record h, Option.or_assoc]
      by_cases hx : key x = k
      · rw [List.find?_cons_of_pos (by simpa using hx), if_pos hx]
        rfl
      · rw [List.find?_cons_of_neg (by simpa using hx), if_neg hx, Option.none_or]

end OrderedMap
