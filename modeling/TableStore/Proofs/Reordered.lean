import TableStore.Assoc
import TableStore.Distinct

/-!
# Maps and sets in another order

A map and a set may be enumerated in any order, and in a different one every time.  Here is said what
it means that two of them differ in nothing else, also where the values of a map hold sets.

## What is here

* `Distinct.Reordered`, `Assoc.Reordered` — the same members, or entries, in whatever order.
* `Assoc.Matches` — the same keys in whatever order, with values that are related.
* `foldl_related_of_perm` — steps that commute may be taken in any order.
* `Assoc.eq_of_keys` — two maps with their keys in the same order are the same if they say the same.
-/

set_option autoImplicit false
namespace TableStore

/-- Steps that commute up to a relation may be taken in any order, from states that are related. -/
theorem foldl_related_of_perm {α β : Type} {R : β → β → Prop} {f : β → α → β}
    (hrefl : ∀ b, R b b) (htrans : ∀ a b c, R a b → R b c → R a c)
    (hstep : ∀ b b' a, R b b' → R (f b a) (f b' a))
    (hswap : ∀ b a a', R (f (f b a) a') (f (f b a') a)) {l l' : List α} (h : l.Perm l') :
    ∀ b b', R b b' → R (l.foldl f b) (l'.foldl f b') := by
  have hsame : ∀ (l : List α) b b', R b b' → R (l.foldl f b) (l.foldl f b') := by
    intro l
    induction l with
    | nil => exact fun _ _ hb => hb
    | cons a l ih => exact fun b b' hb => ih _ _ (hstep b b' a hb)
  induction h with
  | nil => exact fun _ _ hb => hb
  | cons a _ ih => exact fun b b' hb => ih _ _ (hstep b b' a hb)
  | swap a a' l =>
    intro b b' hb
    exact hsame l _ _ (htrans _ _ _ (hswap b a' a) (hstep _ _ a' (hstep b b' a hb)))
  | trans _ _ ih ih' => exact fun b b' hb => htrans _ _ _ (ih b b' hb) (ih' b' b' (hrefl b'))

/-! ## Sets

A set keeps its members in the order in which they have come.  Two sets are the same for all
purposes if they have the same members. -/

namespace Distinct

variable {α : Type} {s s' s'' : Distinct α}

/-- The same members, in whatever order. -/
def Reordered (s s' : Distinct α) : Prop := s.toList.Perm s'.toList

namespace Reordered

theorem refl (s : Distinct α) : s.Reordered s := List.Perm.refl _

theorem symm (h : s.Reordered s') : s'.Reordered s := List.Perm.symm h

theorem trans (h : s.Reordered s') (h' : s'.Reordered s'') : s.Reordered s'' := List.Perm.trans h h'

end Reordered

theorem reordered_iff : s.Reordered s' ↔ ∀ a, a ∈ s ↔ a ∈ s' :=
  List.perm_ext_iff_of_nodup s.nodup s'.nodup

variable [DecidableEq α]

theorem Reordered.insert (h : s.Reordered s') (a : α) : (s.insert a).Reordered (s'.insert a) :=
  reordered_iff.2 fun b => by rw [mem_insert, mem_insert, reordered_iff.1 h b]

theorem Reordered.erase (h : s.Reordered s') (a : α) : (s.erase a).Reordered (s'.erase a) :=
  reordered_iff.2 fun b => by rw [mem_erase, mem_erase, reordered_iff.1 h b]

theorem erase_erase (s : Distinct α) (a b : α) : (s.erase a).erase b = (s.erase b).erase a :=
  ext (by simp only [erase, List.filter_filter, Bool.and_comm])

end Distinct

/-! ## Maps -/

namespace Assoc

variable {κ ν : Type} {m m' m'' : Assoc κ ν}

/-- The same entries, in whatever order. -/
def Reordered (m m' : Assoc κ ν) : Prop := m.entries.Perm m'.entries

namespace Reordered

theorem refl (m : Assoc κ ν) : m.Reordered m := List.Perm.refl _

theorem symm (h : m.Reordered m') : m'.Reordered m := List.Perm.symm h

theorem trans (h : m.Reordered m') (h' : m'.Reordered m'') : m.Reordered m'' := List.Perm.trans h h'

theorem keysWhere (h : m.Reordered m') (p : ν → Bool) : (m.keysWhere p).Perm (m'.keysWhere p) :=
  (h.filter _).map _

end Reordered

variable [DecidableEq κ]

theorem reordered_iff : m.Reordered m' ↔ ∀ k, m'.get? k = m.get? k := by
  have hnodup : ∀ m : Assoc κ ν, m.entries.Nodup := fun m =>
    (List.pairwise_map.1 m.nodup).imp fun hne he => hne (congrArg Prod.fst he)
  rw [Reordered, List.perm_ext_iff_of_nodup (hnodup m) (hnodup m')]
  constructor
  · refine fun h k => Option.ext fun v => ?_
    rw [get?_eq_some_iff, get?_eq_some_iff]
    exact (h (k, v)).symm
  · intro h e
    rw [← get?_eq_some_iff, ← get?_eq_some_iff, h]

/-- The same keys, in whatever order, with values that are related by `R`. -/
def Matches (R : ν → ν → Prop) (m m' : Assoc κ ν) : Prop :=
  ∀ k, Option.Rel R (m.get? k) (m'.get? k)

namespace Matches

variable {R : ν → ν → Prop} {k : κ} {v v' : ν}

/-- A key has values in both maps that are related, or in none. -/
theorem cases (h : m.Matches R m') (k : κ) : m.get? k = none ∧ m'.get? k = none ∨
    ∃ v v', m.get? k = some v ∧ m'.get? k = some v' ∧ R v v' := by
  have hk := h k
  generalize m.get? k = x, m'.get? k = x' at hk
  cases hk with
  | none => exact .inl ⟨rfl, rfl⟩
  | some hv => exact .inr ⟨_, _, rfl, rfl, hv⟩

theorem refl (hR : ∀ v, R v v) (m : Assoc κ ν) : m.Matches R m := fun k => by
  cases m.get? k with
  | none => exact .none
  | some v => exact .some (hR v)

theorem symm (hR : ∀ v v', R v v' → R v' v) (h : m.Matches R m') : m'.Matches R m := fun k => by
  have hk := h k
  generalize m.get? k = x, m'.get? k = x' at hk ⊢
  cases hk with
  | none => exact .none
  | some hv => exact .some (hR _ _ hv)

theorem trans (hR : ∀ u v w, R u v → R v w → R u w) (h : m.Matches R m') (h' : m'.Matches R m'') :
    m.Matches R m'' := fun k => by
  have hk := h k
  have hk' := h' k
  generalize m.get? k = x, m'.get? k = x', m''.get? k = x'' at hk hk' ⊢
  cases hk with
  | none => exact hk'
  | some hv =>
    cases hk' with
    | some hv' => exact .some (hR _ _ _ hv hv')

theorem keys (h : m.Matches R m') : m.keys.Perm m'.keys := by
  refine (List.perm_ext_iff_of_nodup m.nodup_keys m'.nodup_keys).2 fun k => ?_
  rw [mem_keys_iff, mem_keys_iff]
  rcases h.cases k with ⟨hk, hk'⟩ | ⟨v, v', hk, hk', -⟩
  · simp [hk, hk']
  · simp [hk, hk']

theorem insert (h : m.Matches R m') (k : κ) (hv : R v v') :
    (m.insert k v).Matches R (m'.insert k v') := fun l => by
  rw [get?_insert, get?_insert]
  split
  · exact .some hv
  · exact h l

theorem erase (h : m.Matches R m') (k : κ) : (m.erase k).Matches R (m'.erase k) := fun l => by
  rw [get?_erase, get?_erase]
  split
  · exact .none
  · exact h l

theorem modify (h : m.Matches R m') (k : κ) {f : ν → ν} (hf : ∀ v v', R v v' → R (f v) (f v')) :
    (m.modify k f).Matches R (m'.modify k f) := fun l => by
  rw [get?_modify, get?_modify]
  split
  · rcases h.cases l with ⟨hl, hl'⟩ | ⟨v, v', hl, hl', hv⟩
    · rw [hl, hl']
      exact .none
    · rw [hl, hl']
      exact .some (hf v v' hv)
  · exact h l

end Matches

/-- The same entries in another order. -/
theorem Reordered.matches {R : ν → ν → Prop} (h : m.Reordered m') (hR : ∀ v, R v v) :
    m.Matches R m' := fun k => by
  rw [reordered_iff.1 h k]
  exact Matches.refl hR m k

/-- Two maps with their keys in the same order are the same if they say the same. -/
theorem eq_of_keys (hkeys : m.keys = m'.keys) (h : ∀ k ∈ m.keys, m.get? k = m'.get? k) :
    m = m' := by
  have hlength : m.entries.length = m'.entries.length := by
    simpa [keys] using congrArg List.length hkeys
  refine ext (List.ext_getElem hlength fun i hi hi' => ?_)
  have hkey : m.entries[i].1 = m'.entries[i].1 := by
    have := List.getElem_of_eq hkeys (i := i) (by simpa [keys] using hi)
    simpa [keys] using this
  have hmem : m.entries[i].1 ∈ m.keys := List.mem_map_of_mem (List.getElem_mem hi)
  have hv : m.get? m.entries[i].1 = some m.entries[i].2 := get?_eq_some_iff.2 (List.getElem_mem hi)
  have hv' : m'.get? m'.entries[i].1 = some m'.entries[i].2 :=
    get?_eq_some_iff.2 (List.getElem_mem hi')
  rw [h _ hmem, hkey, hv', Option.some.injEq] at hv
  exact Prod.ext hkey hv.symm

end Assoc
end TableStore
