/-!
# Finite maps with an order of enumeration

An `Assoc κ ν` is a list of entries in which no key occurs twice.  It stands for the finite map
`get?`; the order of the list is the order in which the entries are enumerated, and nothing but an
enumeration depends on it.

## What is here

* `Assoc.get?`, `Assoc.insert`, `Assoc.erase` — a new key goes to the end, a known key keeps its
  place, and removal keeps the order of the others.
* `get?_insert`, `get?_erase`, `get?_modify` — what they do to the map; `mem_keysWhere` — what an
  enumeration finds.
* `keys_insert`, `keys_erase`, `size_insert`, `size_erase` — what they do to the list of entries.
-/

set_option autoImplicit false
namespace TableStore

/-- A list of entries in which no key occurs twice. -/
structure Assoc (κ ν : Type) where
  entries : List (κ × ν)
  nodup : (entries.map Prod.fst).Nodup
  deriving DecidableEq

namespace Assoc

variable {κ ν : Type}

@[ext] theorem ext {m n : Assoc κ ν} (h : m.entries = n.entries) : m = n := by
  cases m; cases n; simp_all

/-- The map without entries. -/
def empty : Assoc κ ν := ⟨[], List.nodup_nil⟩

instance : EmptyCollection (Assoc κ ν) := ⟨empty⟩

instance : Inhabited (Assoc κ ν) := ⟨empty⟩

/-- The keys, in the order of the entries. -/
def keys (m : Assoc κ ν) : List κ := m.entries.map Prod.fst

/-- The values, in the order of the entries. -/
def values (m : Assoc κ ν) : List ν := m.entries.map Prod.snd

/-- The number of entries. -/
def size (m : Assoc κ ν) : Nat := m.entries.length

/-- The keys whose values satisfy `p`, in the order of the entries. -/
def keysWhere (m : Assoc κ ν) (p : ν → Bool) : List κ :=
  (m.entries.filter fun e => p e.2).map Prod.fst

theorem nodup_keys (m : Assoc κ ν) : m.keys.Nodup := m.nodup

theorem length_keys (m : Assoc κ ν) : m.keys.length = m.size := by simp [keys, size]

variable [DecidableEq κ]

/-- The value of a key. -/
def get? (m : Assoc κ ν) (k : κ) : Option ν :=
  (m.entries.find? fun e => e.1 = k).map Prod.snd

/-- Whether the key has a value. -/
def contains (m : Assoc κ ν) (k : κ) : Bool := (m.get? k).isSome

instance : Membership κ (Assoc κ ν) := ⟨fun m k => k ∈ m.keys⟩

instance (k : κ) (m : Assoc κ ν) : Decidable (k ∈ m) :=
  inferInstanceAs (Decidable (k ∈ m.keys))

/-- Removes a key, keeping the order of the other entries. -/
def erase (m : Assoc κ ν) (k : κ) : Assoc κ ν :=
  ⟨m.entries.filter fun e => e.1 ≠ k,
    List.Sublist.nodup (List.Sublist.map _ List.filter_sublist) m.nodup⟩

/-- Replaces the value of a known key in its place. -/
def replace (m : Assoc κ ν) (k : κ) (v : ν) : Assoc κ ν :=
  ⟨m.entries.map fun e => if e.1 = k then (k, v) else e, by
    have h : (m.entries.map fun e => if e.1 = k then (k, v) else e).map Prod.fst =
        m.entries.map Prod.fst := by
      rw [List.map_map]
      refine List.map_congr_left fun e _ => ?_
      by_cases he : e.1 = k <;> simp [he]
    rw [h]
    exact m.nodup⟩

/-- Sets the value of a key: in its place if the key is known, else at the end. -/
def insert (m : Assoc κ ν) (k : κ) (v : ν) : Assoc κ ν :=
  if h : k ∈ m.entries.map Prod.fst then m.replace k v
  else ⟨m.entries ++ [(k, v)], by
    rw [List.map_append, List.nodup_append]
    refine ⟨m.nodup, by simp, ?_⟩
    intro x hx y hy
    simp only [List.map_cons, List.map_nil, List.mem_singleton] at hy
    subst hy
    exact fun e => h (e ▸ hx)⟩

/-- Changes the value of a known key; an unknown key stays unknown. -/
def modify (m : Assoc κ ν) (k : κ) (f : ν → ν) : Assoc κ ν :=
  match m.get? k with
  | some v => m.replace k (f v)
  | none => m

/-! ## The map that the entries stand for -/

@[simp] theorem get?_empty (k : κ) : (∅ : Assoc κ ν).get? k = none := rfl

theorem get?_eq_some_iff {m : Assoc κ ν} {k : κ} {v : ν} :
    m.get? k = some v ↔ (k, v) ∈ m.entries := by
  obtain ⟨l, hl⟩ := m
  simp only [get?]
  induction l with
  | nil => simp
  | cons e l ih =>
    simp only [List.map_cons, List.nodup_cons] at hl
    by_cases he : e.1 = k
    · simp only [List.find?_cons, he, decide_true, Option.map_some, Option.some.injEq,
        List.mem_cons]
      constructor
      · intro h; left; rw [← h, ← he]
      · rintro (h | h)
        · rw [← h]
        · exact absurd (he ▸ List.mem_map_of_mem (f := Prod.fst) h) hl.1
    · simp only [List.find?_cons, he, decide_false, List.mem_cons]
      rw [ih hl.2]
      exact ⟨Or.inr, fun h => h.elim (fun h => absurd (by rw [← h]) he) id⟩

theorem get?_eq_none_iff {m : Assoc κ ν} {k : κ} : m.get? k = none ↔ k ∉ m.keys := by
  simp only [get?, Option.map_eq_none_iff, List.find?_eq_none, decide_eq_true_eq, keys,
    List.mem_map, not_exists, not_and]

theorem get?_replace_self {m : Assoc κ ν} {k : κ} (v : ν) (h : k ∈ m.keys) :
    (m.replace k v).get? k = some v := by
  rw [get?_eq_some_iff]
  obtain ⟨e, he, hk⟩ := List.mem_map.1 h
  exact List.mem_map.2 ⟨e, he, by simp [hk]⟩

theorem get?_replace_of_ne {m : Assoc κ ν} {k l : κ} (v : ν) (h : l ≠ k) :
    (m.replace k v).get? l = m.get? l := by
  apply Option.ext
  intro w
  simp only [get?_eq_some_iff, replace, List.mem_map]
  constructor
  · rintro ⟨e, he, hw⟩
    by_cases hk : e.1 = k
    · simp only [hk, ↓reduceIte, Prod.mk.injEq] at hw
      exact absurd hw.1.symm h
    · rw [if_neg hk] at hw
      exact hw ▸ he
  · intro hw
    exact ⟨_, hw, by simp [h]⟩

theorem get?_insert (m : Assoc κ ν) (k l : κ) (v : ν) :
    (m.insert k v).get? l = if l = k then some v else m.get? l := by
  by_cases h : k ∈ m.entries.map Prod.fst
  · simp only [insert, h, ↓reduceDIte]
    by_cases hl : l = k
    · rw [if_pos hl, hl, get?_replace_self v h]
    · rw [if_neg hl, get?_replace_of_ne v hl]
  · apply Option.ext
    intro w
    rw [get?_eq_some_iff]
    simp only [insert, h, ↓reduceDIte, List.mem_append, List.mem_singleton]
    by_cases hl : l = k
    · subst hl
      have : (l, w) ∉ m.entries := fun hw => h (List.mem_map_of_mem (f := Prod.fst) hw)
      simp only [this, Prod.mk.injEq, true_and, false_or, ↓reduceIte, Option.some.injEq]
      exact eq_comm
    · rw [if_neg hl, get?_eq_some_iff]
      simp [hl]

theorem get?_erase (m : Assoc κ ν) (k l : κ) :
    (m.erase k).get? l = if l = k then none else m.get? l := by
  apply Option.ext
  intro w
  rw [get?_eq_some_iff]
  simp only [erase, List.mem_filter, decide_eq_true_eq]
  by_cases hl : l = k
  · simp [hl]
  · rw [if_neg hl, get?_eq_some_iff]
    simp [hl]

theorem get?_modify (m : Assoc κ ν) (k l : κ) (f : ν → ν) :
    (m.modify k f).get? l = if l = k then (m.get? l).map f else m.get? l := by
  unfold modify
  cases h : m.get? k with
  | none =>
    by_cases hl : l = k
    · simp [hl, h]
    · rw [if_neg hl]
  | some v =>
    have hk : k ∈ m.keys := by
      rw [get?_eq_some_iff] at h
      exact List.mem_map_of_mem (f := Prod.fst) h
    by_cases hl : l = k
    · rw [if_pos hl, hl, get?_replace_self _ hk, h, Option.map_some]
    · rw [if_neg hl, get?_replace_of_ne _ hl]

theorem contains_iff {m : Assoc κ ν} {k : κ} : m.contains k = true ↔ k ∈ m.keys := by
  rw [contains, Option.isSome_iff_ne_none, ne_eq, get?_eq_none_iff, Decidable.not_not]

theorem mem_keys_iff {m : Assoc κ ν} {k : κ} : k ∈ m.keys ↔ ∃ v, m.get? k = some v := by
  rw [← contains_iff, contains, Option.isSome_iff_exists]

theorem mem_values {m : Assoc κ ν} {v : ν} : v ∈ m.values ↔ ∃ k, m.get? k = some v := by
  simp only [values, List.mem_map, get?_eq_some_iff]
  constructor
  · rintro ⟨e, he, rfl⟩
    exact ⟨e.1, he⟩
  · rintro ⟨k, hk⟩
    exact ⟨(k, v), hk, rfl⟩

theorem mem_keysWhere {m : Assoc κ ν} {p : ν → Bool} {k : κ} :
    k ∈ m.keysWhere p ↔ ∃ v, m.get? k = some v ∧ p v = true := by
  simp only [keysWhere, List.mem_map, List.mem_filter, get?_eq_some_iff]
  constructor
  · rintro ⟨e, ⟨he, hp⟩, rfl⟩
    exact ⟨e.2, he, hp⟩
  · rintro ⟨v, hv, hp⟩
    exact ⟨(k, v), ⟨hv, hp⟩, rfl⟩

/-! ## The entries -/

theorem keys_erase (m : Assoc κ ν) (k : κ) : (m.erase k).keys = m.keys.filter (· ≠ k) := by
  simp only [keys, erase, List.filter_map, Function.comp_def]

theorem keys_insert (m : Assoc κ ν) (k : κ) (v : ν) :
    (m.insert k v).keys = if k ∈ m.keys then m.keys else m.keys ++ [k] := by
  by_cases h : k ∈ m.entries.map Prod.fst
  · rw [if_pos (show k ∈ m.keys from h)]
    simp only [insert, h, ↓reduceDIte, keys, replace, List.map_map]
    refine List.map_congr_left fun e _ => ?_
    by_cases he : e.1 = k <;> simp [he]
  · rw [if_neg (show k ∉ m.keys from h)]
    simp [insert, h, keys]

/-- A new key comes last. -/
theorem values_insert {m : Assoc κ ν} {k : κ} (h : k ∉ m.keys) (v : ν) :
    (m.insert k v).values = m.values ++ [v] := by
  have h' : k ∉ m.entries.map Prod.fst := h
  simp [insert, h', values]

theorem size_insert (m : Assoc κ ν) (k : κ) (v : ν) :
    (m.insert k v).size = if k ∈ m.keys then m.size else m.size + 1 := by
  rw [← length_keys, ← length_keys, keys_insert]
  split <;> simp

theorem size_erase_le (m : Assoc κ ν) (k : κ) : (m.erase k).size ≤ m.size := by
  rw [← length_keys, ← length_keys, keys_erase]
  exact List.length_filter_le _ _

theorem size_erase {m : Assoc κ ν} {k : κ} (h : k ∈ m.keys) : (m.erase k).size + 1 = m.size := by
  have herase : m.keys.filter (· ≠ k) = m.keys.erase k := by
    rw [m.nodup_keys.erase_eq_filter]
    exact List.filter_congr fun l _ => by by_cases hl : l = k <;> simp [hl]
  rw [← length_keys, ← length_keys, keys_erase, herase, List.length_erase_of_mem h]
  have := List.length_pos_of_mem h
  omega

/-- Setting a key to the value that it has changes nothing. -/
theorem insert_of_get? {m : Assoc κ ν} {k : κ} {v : ν} (h : m.get? k = some v) :
    m.insert k v = m := by
  have hk : k ∈ m.entries.map Prod.fst :=
    List.mem_map_of_mem (f := Prod.fst) (get?_eq_some_iff.1 h)
  have hsame : ∀ e ∈ m.entries, (if e.1 = k then (k, v) else e) = e := fun e he => by
    split
    · rename_i hek
      subst hek
      rw [get?_eq_some_iff.2 he] at h
      rw [← Option.some.inj h]
    · rfl
  rw [insert, dif_pos hk]
  exact ext ((List.map_congr_left hsame).trans (List.map_id' _))

end Assoc
end TableStore
