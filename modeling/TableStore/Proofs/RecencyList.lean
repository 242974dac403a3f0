import TableStore.Proofs.Recency

/-!
# The record of accesses as a list

The record of accesses keeps a clock, two maps and a set, and every operation edits some of them.
To those who use it, it is one list of pages, the least recently used one first, and each page bears
a mark if it may be evicted.

## What is here

* `Recency.listed` — the list, and `Recency.Tracks` — the record keeps no mark of a page that it
  does not track.
* `listed_touch`, `listed_setEvictable`, `listed_remove`, `Tracks.evict?_eq` — what each operation
  does to the list.
* `RecencyCall`, `RecencyCall.onRecord`, `RecencyCall.onList` — the operations, as a record and as a
  list answer them; `RecencyCall.step` says of one call, and `RecencyCall.run` of many, that both
  answer alike.
* `Recency.refines_list` — the whole.
-/

set_option autoImplicit false
namespace TableStore
namespace Recency

variable {r : Recency} {p : PageId}

/-! ## The list

A record of accesses has two maps, a set and a clock.  All that can be told of it from outside is in
one list: which pages are tracked, in which order, and which of them bear the mark. -/

/-- The tracked pages, the least recently used one first, each with its mark. -/
def listed (r : Recency) : List (PageId × Bool) :=
  r.order.map fun p => (p, decide (p ∈ r.evictable))

/-- The two maps are inverse to each other, and only pages that are tracked bear the mark. -/
structure Tracks (r : Recency) : Prop extends r.Formed where
  tracked : ∀ p ∈ r.evictable, p ∈ r.stamps.keys

theorem map_fst_listed (r : Recency) : r.listed.map Prod.fst = r.order := by
  rw [listed, List.map_map]
  exact List.map_id' r.order

theorem Tracks.mem_order (h : r.Tracks) (hp : p ∈ r.evictable) : p ∈ r.order :=
  h.mem_order_iff.2 (h.tracked p hp)

/-- No page is listed twice. -/
theorem Tracks.nodup_listed (h : r.Tracks) : (r.listed.map Prod.fst).Nodup := by
  rw [map_fst_listed]
  exact h.nodup_order

/-- The list without a page. -/
theorem filter_listed (r : Recency) (p : PageId) : r.listed.filter (fun e => e.1 ≠ p) =
    (r.order.filter (· ≠ p)).map fun q => (q, decide (q ∈ r.evictable)) := by
  rw [listed, List.filter_map]
  rfl

/-- What is found in a list of pages that bear the marks `mark`. -/
theorem lookup_marked (mark : PageId → Bool) (l : List PageId) (p : PageId) :
    (l.map fun q => (q, mark q)).lookup p = if p ∈ l then some (mark p) else none := by
  induction l with
  | nil => rfl
  | cons q l ih =>
    rw [List.map_cons, List.lookup_cons, ih]
    by_cases hq : p = q
    · subst hq
      simp
    · simp [hq, beq_false_of_ne hq]

/-- The mark of a page is found in the list; a page that is not tracked has none. -/
theorem Tracks.lookup_listed (h : r.Tracks) (p : PageId) :
    (r.listed.lookup p).getD false = decide (p ∈ r.evictable) := by
  rw [listed, lookup_marked]
  split
  · rfl
  · rename_i hn
    exact (decide_eq_false fun hp => hn (h.mem_order hp)).symm

/-- The number of pages that may be evicted is the number of marks in the list. -/
theorem Tracks.size_eq (h : r.Tracks) : r.size = r.listed.countP Prod.snd := by
  have hperm : r.evictable.toList.Perm (r.order.filter (· ∈ r.evictable)) := by
    refine (List.perm_ext_iff_of_nodup r.evictable.nodup (h.nodup_order.filter _)).2 fun q => ?_
    rw [List.mem_filter, decide_eq_true_eq, Distinct.mem_toList]
    exact ⟨fun hq => ⟨h.mem_order hq, hq⟩, And.right⟩
  rw [size, Distinct.size, hperm.length_eq, listed, List.countP_map, List.countP_eq_length_filter]
  rfl

/-! ## What the operations do to it -/

theorem tracks_empty : empty.Tracks where
  toFormed := formed_empty
  tracked _ h := absurd h (Distinct.not_mem_empty _)

theorem Tracks.touch (h : r.Tracks) (p : PageId) : (r.touch p).Tracks where
  toFormed := h.toFormed.touch p
  tracked q hq := by
    rw [evictable_touch] at hq
    rw [← (h.toFormed.touch p).mem_order_iff, order_touch h.toFormed, List.mem_append,
      List.mem_filter, List.mem_singleton, decide_eq_true_eq]
    by_cases hqp : q = p
    · exact Or.inr hqp
    · exact Or.inl ⟨h.mem_order hq, hqp⟩

/-- A page that is accessed moves to the end with its mark; a new one comes without a mark. -/
theorem Tracks.listed_touch (h : r.Tracks) (p : PageId) : (r.touch p).listed =
    r.listed.filter (fun e => e.1 ≠ p) ++ [(p, (r.listed.lookup p).getD false)] := by
  rw [h.lookup_listed, filter_listed, listed, evictable_touch, order_touch h.toFormed,
    List.map_append]
  rfl

theorem Tracks.setEvictable (h : r.Tracks) (p : PageId) (on : Bool) :
    (r.setEvictable p on).Tracks where
  toFormed := h.toFormed.setEvictable p on
  tracked q hq := by
    rw [Recency.setEvictable] at hq ⊢
    split at hq
    · rename_i hon
      rw [if_pos hon]
      rcases Distinct.mem_insert.1 hq with rfl | hq
      · exact Assoc.contains_iff.1 (Bool.and_eq_true_iff.1 hon).2
      · exact h.tracked q hq
    · rename_i hoff
      rw [if_neg hoff]
      exact h.tracked q (Distinct.mem_erase.1 hq).2

/-- A page that is tracked is given its mark in its place; other pages are ignored. -/
theorem Tracks.listed_setEvictable (h : r.Tracks) (p : PageId) (on : Bool) :
    (r.setEvictable p on).listed = r.listed.map fun e => if e.1 = p then (p, on) else e := by
  rw [listed, order_setEvictable, listed, List.map_map]
  refine List.map_congr_left fun q hq => ?_
  dsimp only [Function.comp_apply]
  split
  · rename_i hqp
    subst hqp
    simp [mem_evictable_setEvictable_iff (h.mem_order_iff.1 hq)]
  · rename_i hqp
    refine congrArg (Prod.mk q) (decide_eq_decide.2 ⟨fun hm => ?_, fun hm => ?_⟩)
    · exact ((mem_evictable_setEvictable hm).resolve_left fun he => hqp he.1).2
    · rw [Recency.setEvictable]
      split
      · exact Distinct.mem_insert.2 (Or.inr hm)
      · exact Distinct.mem_erase.2 ⟨hqp, hm⟩

theorem Tracks.remove (h : r.Tracks) (p : PageId) : (r.remove p).Tracks where
  toFormed := h.toFormed.remove p
  tracked q hq := by
    obtain ⟨hqp, hq⟩ := mem_evictable_remove.1 hq
    rw [← (h.toFormed.remove p).mem_order_iff, order_remove h.toFormed, List.mem_filter,
      decide_eq_true_eq]
    exact ⟨h.mem_order hq, hqp⟩

/-- A page that is forgotten leaves the list. -/
theorem Tracks.listed_remove (h : r.Tracks) (p : PageId) :
    (r.remove p).listed = r.listed.filter fun e => e.1 ≠ p := by
  rw [filter_listed, listed, order_remove h.toFormed]
  refine List.map_congr_left fun q hq => ?_
  have hqp : q ≠ p := by simpa using (List.mem_filter.1 hq).2
  simp [mem_evictable_remove, hqp]

/-- The first page with a mark is evicted, and then forgotten. -/
theorem Tracks.evict?_eq (h : r.Tracks) :
    r.evict? = (r.listed.find? Prod.snd).map fun e => (e.1, r.remove e.1) := by
  rw [Recency.evict?_eq h.toFormed, listed, List.find?_map, Option.map_map]
  rfl

end Recency

/-! ## Calls -/

/-- What is done to a record of accesses. -/
inductive RecencyCall where
  | touch (p : PageId)
  | setEvictable (p : PageId) (on : Bool)
  | evict
  | remove (p : PageId)

namespace RecencyCall

variable {r : Recency}

/-- Whether the call is an access. -/
def isTouch : RecencyCall → Bool
  | touch _ => true
  | _ => false

/-- What a record answers, and what becomes of it.  Only an eviction has an answer. -/
def onRecord : RecencyCall → StateM Recency (Option PageId)
  | touch p => fun r => (none, r.touch p)
  | setEvictable p on => fun r => (none, r.setEvictable p on)
  | evict => fun r =>
    match r.evict? with
    | none => (none, r)
    | some (p, r) => (some p, r)
  | remove p => fun r => (none, r.remove p)

/-- What a list of pages with marks answers, and what becomes of it. -/
def onList : RecencyCall → StateM (List (PageId × Bool)) (Option PageId)
  | touch p => fun l => (none, l.filter (fun e => e.1 ≠ p) ++ [(p, (l.lookup p).getD false)])
  | setEvictable p on => fun l => (none, l.map fun e => if e.1 = p then (p, on) else e)
  | evict => fun l =>
    match l.find? Prod.snd with
    | none => (none, l)
    | some (p, _) => (some p, l.filter fun e => e.1 ≠ p)
  | remove p => fun l => (none, l.filter fun e => e.1 ≠ p)

/-- The record `r` after some calls, with their answers, is the list after the same calls. -/
structure Agree {α : Type} (run : α × Recency) (run' : α × List (PageId × Bool)) : Prop where
  tracks : run.2.Tracks
  answer_eq : run.1 = run'.1
  listed_eq : run.2.listed = run'.2

/-- A record answers a call as its list does, and is that list afterwards. -/
theorem step (h : r.Tracks) (c : RecencyCall) : Agree (c.onRecord r) (c.onList r.listed) := by
  cases c with
  | touch p => exact ⟨h.touch p, rfl, h.listed_touch p⟩
  | setEvictable p on => exact ⟨h.setEvictable p on, rfl, h.listed_setEvictable p on⟩
  | evict =>
    have he := h.evict?_eq
    cases hfind : r.listed.find? Prod.snd with
    | none =>
      rw [hfind, Option.map_none] at he
      simp only [onRecord, onList, he, hfind]
      exact ⟨h, rfl, rfl⟩
    | some e =>
      rw [hfind, Option.map_some] at he
      simp only [onRecord, onList, he, hfind]
      exact ⟨h.remove e.1, rfl, h.listed_remove e.1⟩
  | remove p => exact ⟨h.remove p, rfl, h.listed_remove p⟩

/-- An access advances the clock by one, and nothing else does. -/
theorem clock_onRecord (r : Recency) (c : RecencyCall) :
    (c.onRecord r).2.clock = r.clock + if c.isTouch then 1 else 0 := by
  cases c with
  | touch p => exact congrArg (· + 1) (Recency.clock_unstamp r p)
  | setEvictable p on =>
    simp only [onRecord, Recency.setEvictable]
    split <;> rfl
  | evict =>
    simp only [onRecord, Recency.evict?]
    split
    · rfl
    · rename_i he
      split at he
      · cases he
      · cases he
        rfl
  | remove p => exact Recency.clock_unstamp r p

/-- A record answers calls as its list does, however many they are. -/
theorem run (h : r.Tracks) (cs : List RecencyCall) :
    Agree ((cs.mapM onRecord).run r) ((cs.mapM onList).run r.listed) := by
  induction cs generalizing r with
  | nil => exact ⟨h, rfl, rfl⟩
  | cons c cs ih =>
    have hone := step h c
    have hrest := ih hone.tracks
    rw [hone.listed_eq] at hrest
    rw [List.mapM_cons, List.mapM_cons]
    have hanswers := congr (congrArg List.cons hone.answer_eq) hrest.answer_eq
    exact ⟨hrest.tracks, hanswers, hrest.listed_eq⟩

/-- The clock counts the accesses. -/
theorem clock_run (r : Recency) (cs : List RecencyCall) :
    ((cs.mapM onRecord).run r).2.clock = r.clock + cs.countP isTouch := by
  induction cs generalizing r with
  | nil => rfl
  | cons c cs ih =>
    have hrest := ih (c.onRecord r).2
    rw [clock_onRecord] at hrest
    rw [List.mapM_cons, List.countP_cons, Nat.add_comm (List.countP _ cs), ← Nat.add_assoc]
    exact hrest

end RecencyCall

/-- **A record of accesses is a list of pages with marks.**  After any calls on any pages, the two
maps of the record are inverse to each other, its stamps go up to the clock, which counts the
accesses, and only tracked pages bear marks.  And every answer is that of a list without repetition:
an access moves a page to its end, a mark is set in its place, and an eviction takes out the first
page with a mark, or nothing.  The order is that of the list, and the size is the number of marks.
-/
theorem Recency.refines_list (cs : List RecencyCall) :
    let run := (cs.mapM RecencyCall.onRecord).run Recency.empty
    let run' := (cs.mapM RecencyCall.onList).run []
    run.1 = run'.1 ∧ run.2.listed = run'.2 ∧ (run'.2.map Prod.fst).Nodup ∧
      run.2.order = run'.2.map Prod.fst ∧ run.2.size = run'.2.countP Prod.snd ∧
      run.2.Tracks ∧ run.2.clock = cs.countP RecencyCall.isTouch := by
  intro run run'
  have hagree : RecencyCall.Agree run run' := RecencyCall.run tracks_empty cs
  have hlisted : run.2.listed = run'.2 := hagree.listed_eq
  refine ⟨hagree.answer_eq, hlisted, ?_, ?_, ?_, hagree.tracks, ?_⟩
  · exact hlisted ▸ hagree.tracks.nodup_listed
  · rw [← hlisted, map_fst_listed]
  · rw [← hlisted]
    exact hagree.tracks.size_eq
  · exact (RecencyCall.clock_run .empty cs).trans (Nat.zero_add _)

end TableStore
