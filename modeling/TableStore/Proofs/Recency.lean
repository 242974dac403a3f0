import TableStore.Recency

/-!
# Least recently used pages come first

The record of accesses keeps two maps that are inverse to each other, from pages to stamps and from
stamps to pages.  What comes of them is one list, the order of the pages, and this file says how each
operation changes that list.

## What is here

* `Recency.Formed` — the two maps are inverse to each other, and stamps go up to the clock.
* `Recency.order_touch`, `Recency.order_remove`, `Recency.order_setEvictable` — the order after each
  operation: an access moves a page to the end.
* `Recency.evict?_eq` — the page to be evicted is the first in the order that may be.
* `LastBefore` — in a list of accesses, the last one of a page comes before the last one of another.
-/

set_option autoImplicit false
namespace TableStore

/-! ## Lists of accesses -/

/-- The last access of `p` in the list comes before the last access of `q`. -/
def LastBefore (log : List PageId) (p q : PageId) : Prop :=
  ∃ before after, log = before ++ after ∧ p ∈ before ∧ p ∉ after ∧ q ∈ after

namespace LastBefore

variable {log : List PageId} {p q x : PageId}

/-- Further accesses of other pages do not change which of two pages was used before. -/
theorem snoc (h : LastBefore log p q) (hx : x ≠ p) : LastBefore (log ++ [x]) p q := by
  obtain ⟨before, after, rfl, hp, hn, hq⟩ := h
  refine ⟨before, after ++ [x], List.append_assoc _ _ _, hp, ?_, List.mem_append_left _ hq⟩
  simp only [List.mem_append, List.mem_singleton, not_or]
  exact ⟨hn, Ne.symm hx⟩

/-- A page that is accessed now was accessed after all others. -/
theorem last (hp : p ∈ log) (hx : x ≠ p) : LastBefore (log ++ [x]) p x :=
  ⟨log, [x], rfl, hp, by simpa using Ne.symm hx, List.mem_singleton_self x⟩

end LastBefore

namespace Recency

variable {r : Recency} {p q : PageId}

/-! ## Pages that may be evicted -/

@[simp] theorem evictable_unstamp (r : Recency) (p : PageId) :
    (r.unstamp p).evictable = r.evictable := by
  rw [unstamp]
  split <;> rfl

@[simp] theorem evictable_touch (r : Recency) (p : PageId) :
    (r.touch p).evictable = r.evictable := by
  simp only [touch, evictable_unstamp]

theorem mem_evictable_remove {p q : PageId} :
    q ∈ (r.remove p).evictable ↔ q ≠ p ∧ q ∈ r.evictable := by
  simp only [remove, evictable_unstamp, Distinct.mem_erase]

theorem mem_evictable_setEvictable {p q : PageId} {on : Bool}
    (h : q ∈ (r.setEvictable p on).evictable) : (q = p ∧ on = true) ∨ (q ≠ p ∧ q ∈ r.evictable) := by
  rw [setEvictable] at h
  split at h
  · rename_i hon
    by_cases hq : q = p
    · exact Or.inl ⟨hq, (Bool.and_eq_true_iff.1 hon).1⟩
    · exact Or.inr ⟨hq, (Distinct.mem_insert.1 h).resolve_left hq⟩
  · exact Or.inr (Distinct.mem_erase.1 h)

/-- A page that is tracked bears the mark that it was given last. -/
theorem mem_evictable_setEvictable_iff (hp : p ∈ r.stamps.keys) {on : Bool} :
    q ∈ (r.setEvictable p on).evictable ↔ (q = p ∧ on = true) ∨ (q ≠ p ∧ q ∈ r.evictable) := by
  refine ⟨mem_evictable_setEvictable, fun h => ?_⟩
  rw [setEvictable, Assoc.contains_iff.2 hp, Bool.and_true]
  cases on with
  | true =>
    rw [if_pos rfl]
    exact Distinct.mem_insert.2 (h.imp And.left And.right)
  | false =>
    simp only [Bool.false_eq_true, and_false, false_or, ↓reduceIte] at h ⊢
    exact Distinct.mem_erase.2 h

theorem evict?_eq_some {p : PageId} {r' : Recency} (h : r.evict? = some (p, r')) :
    p ∈ r.evictable ∧ r'.evictable = r.evictable.erase p := by
  rw [evict?] at h
  split at h
  · cases h
  · rename_i stamp q hfind
    cases h
    exact ⟨by simpa using List.find?_some hfind, rfl⟩

/-! ## Stamps

A page that is used gets the time of a clock as its stamp.  There are two maps, from pages to stamps
and back, and the second one is sorted; the order in which pages were used is what it lists. -/

/-- The two maps of a record are inverse to each other, and the clock is past all stamps, which are
listed in increasing order. -/
structure Formed (r : Recency) : Prop where
  inverse : ∀ p stamp, r.stamps.get? p = some stamp ↔ r.byStamp.get? stamp = some p
  sorted : r.byStamp.keys.Pairwise (· < ·)
  le_clock : ∀ stamp ∈ r.byStamp.keys, stamp ≤ r.clock

theorem formed_empty : empty.Formed where
  inverse _ _ := iff_of_false (fun h => by cases h) fun h => by cases h
  sorted := List.Pairwise.nil
  le_clock _ h := absurd h List.not_mem_nil

theorem mem_order : p ∈ r.order ↔ ∃ stamp, r.byStamp.get? stamp = some p := Assoc.mem_values

/-- The pages in the order are those that have a stamp. -/
theorem Formed.mem_order_iff (h : r.Formed) : p ∈ r.order ↔ p ∈ r.stamps.keys := by
  rw [mem_order, Assoc.mem_keys_iff]
  simp only [h.inverse]

/-- No page has two places in the order. -/
theorem Formed.nodup_order (h : r.Formed) : r.order.Nodup := by
  rw [order, Assoc.values, List.Nodup, List.pairwise_map]
  have hkeys : r.byStamp.entries.Pairwise fun e e' => e.1 ≠ e'.1 :=
    List.pairwise_map.1 r.byStamp.nodup
  refine hkeys.imp_of_mem fun {e e'} he he' hne heq => hne ?_
  have hs := (h.inverse e.2 e.1).2 (Assoc.get?_eq_some_iff.2 he)
  have hs' := (h.inverse e'.2 e'.1).2 (Assoc.get?_eq_some_iff.2 he')
  rw [heq, hs'] at hs
  exact (Option.some.inj hs).symm

/-! ## Forgetting a page -/

theorem clock_unstamp (r : Recency) (p : PageId) : (r.unstamp p).clock = r.clock := by
  rw [unstamp]
  split <;> rfl

theorem get?_stamps_unstamp (r : Recency) (p q : PageId) :
    (r.unstamp p).stamps.get? q = if q = p then none else r.stamps.get? q := by
  rw [unstamp]
  split
  · rename_i hp
    split
    · rename_i hq
      rw [hq, hp]
    · rfl
  · exact Assoc.get?_erase _ _ _

theorem Formed.unstamp (h : r.Formed) (p : PageId) : (r.unstamp p).Formed := by
  rw [Recency.unstamp]
  split
  · exact h
  · rename_i stamp hp
    refine ⟨fun q s => ?_, ?_, fun s hs => ?_⟩
    · simp only [Assoc.get?_erase]
      by_cases hq : q = p
      · rw [if_pos hq, hq]
        by_cases hs : s = stamp
        · simp [hs]
        · rw [if_neg hs, ← h.inverse, hp]
          simp [Ne.symm hs]
      · rw [if_neg hq]
        by_cases hs : s = stamp
        · rw [if_pos hs, hs, h.inverse, (h.inverse p stamp).1 hp]
          simp [Ne.symm hq]
        · rw [if_neg hs, h.inverse]
    · dsimp only
      rw [Assoc.keys_erase]
      exact h.sorted.filter _
    · dsimp only at hs ⊢
      rw [Assoc.keys_erase] at hs
      exact h.le_clock s (List.mem_filter.1 hs).1

theorem Formed.order_unstamp (h : r.Formed) (p : PageId) :
    (r.unstamp p).order = r.order.filter (· ≠ p) := by
  rw [Recency.unstamp]
  split
  · rename_i hp
    have hnot : p ∉ r.order := by
      rw [h.mem_order_iff, ← Assoc.get?_eq_none_iff]
      exact hp
    refine (List.filter_eq_self.2 fun q hq => ?_).symm
    simpa using fun he : q = p => hnot (he ▸ hq)
  · rename_i stamp hp
    simp only [order, Assoc.values, Assoc.erase, List.filter_map]
    refine congrArg _ (List.filter_congr fun e he => ?_)
    have hs := (h.inverse e.2 e.1).2 (Assoc.get?_eq_some_iff.2 he)
    have hiff : e.1 = stamp ↔ e.2 = p := by
      constructor
      · intro he
        rw [he, h.inverse, (h.inverse p stamp).1 hp] at hs
        exact (Option.some.inj hs).symm
      · intro he
        rw [he, hp] at hs
        exact (Option.some.inj hs).symm
    simp [hiff]

theorem Formed.remove (h : r.Formed) (p : PageId) : (r.remove p).Formed :=
  ⟨(h.unstamp p).inverse, (h.unstamp p).sorted, (h.unstamp p).le_clock⟩

/-- A page that is forgotten leaves the order. -/
theorem order_remove (h : r.Formed) (p : PageId) :
    (r.remove p).order = r.order.filter (· ≠ p) := h.order_unstamp p

/-! ## Access

A page that is used again gives up its old stamp.  The new one is past all others, so the page comes
last. -/

theorem Formed.clock_not_mem (h : r.Formed) (p : PageId) :
    r.clock + 1 ∉ (r.unstamp p).byStamp.keys := by
  intro hm
  have := (h.unstamp p).le_clock _ hm
  rw [clock_unstamp] at this
  omega

theorem Formed.touch (h : r.Formed) (p : PageId) : (r.touch p).Formed := by
  have hu := h.unstamp p
  have hnew := h.clock_not_mem p
  simp only [Recency.touch, clock_unstamp]
  refine ⟨fun q s => ?_, ?_, fun s hs => ?_⟩
  · simp only [Assoc.get?_insert]
    by_cases hq : q = p
    · rw [if_pos hq, hq]
      by_cases hs : s = r.clock + 1
      · simp [hs]
      · rw [if_neg hs, ← hu.inverse, get?_stamps_unstamp, if_pos rfl]
        simp [Ne.symm hs]
    · rw [if_neg hq]
      by_cases hs : s = r.clock + 1
      · rw [if_pos hs, hs, hu.inverse, Assoc.get?_eq_none_iff.2 hnew]
        simp [Ne.symm hq]
      · rw [if_neg hs, hu.inverse]
  · dsimp only
    rw [Assoc.keys_insert, if_neg hnew, List.pairwise_append]
    refine ⟨hu.sorted, List.pairwise_singleton _ _, fun s hs s' hs' => ?_⟩
    have := hu.le_clock s hs
    rw [clock_unstamp] at this
    rw [List.mem_singleton] at hs'
    omega
  · dsimp only at hs ⊢
    rw [Assoc.keys_insert, if_neg hnew, List.mem_append, List.mem_singleton] at hs
    rcases hs with hs | hs
    · have := hu.le_clock s hs
      rw [clock_unstamp] at this
      omega
    · omega

/-- A page that is accessed moves to the end of the order. -/
theorem order_touch (h : r.Formed) (p : PageId) :
    (r.touch p).order = r.order.filter (· ≠ p) ++ [p] := by
  have hnew := h.clock_not_mem p
  simp only [touch, order, clock_unstamp]
  rw [Assoc.values_insert hnew]
  exact congrArg (· ++ [p]) (h.order_unstamp p)

theorem stamped_touch (r : Recency) (p : PageId) : p ∈ (r.touch p).stamps.keys := by
  rw [Assoc.mem_keys_iff]
  exact ⟨(r.unstamp p).clock + 1, by rw [touch, Assoc.get?_insert, if_pos rfl]⟩

/-! ## Marking -/

theorem Formed.setEvictable (h : r.Formed) (p : PageId) (on : Bool) :
    (r.setEvictable p on).Formed := by
  rw [Recency.setEvictable]
  split <;> exact ⟨h.inverse, h.sorted, h.le_clock⟩

/-- A mark changes nothing in the order. -/
@[simp] theorem order_setEvictable (r : Recency) (p : PageId) (on : Bool) :
    (r.setEvictable p on).order = r.order := by
  rw [setEvictable]
  split <;> rfl

/-! ## Eviction -/

/-- **The page to be evicted is the first in the order that may be**, and it is forgotten. -/
theorem evict?_eq (h : r.Formed) :
    r.evict? = (r.order.find? fun p => p ∈ r.evictable).map fun p => (p, r.remove p) := by
  rw [evict?, order, Assoc.values, List.find?_map]
  simp only [Function.comp_def]
  cases hfind : r.byStamp.entries.find? fun e => e.2 ∈ r.evictable with
  | none => rfl
  | some e =>
    obtain ⟨stamp, p⟩ := e
    have hp : r.stamps.get? p = some stamp :=
      (h.inverse p stamp).2 (Assoc.get?_eq_some_iff.2 (List.mem_of_find?_eq_some hfind))
    simp only [Option.map_some, remove, unstamp, hp]

end Recency
end TableStore
