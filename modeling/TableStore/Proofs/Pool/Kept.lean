import TableStore.Proofs.Pool.End

/-!
# The cache and its record of accesses

The pool keeps the pages in memory apart from the record of their accesses, and changes the two
beside each other wherever a page comes, goes, is used, is changed or is written.  Here it is shown
that they always fit: what is tracked is what is in memory, what may be evicted is what is clean, and
the order is the order of the last accesses.

## What is here

* `Cache.Kept` — the record fits the pages, and the accesses in a list.  Each operation keeps this up
  (`Kept.touch`, `Kept.put`, `Kept.drop`, `Kept.settle`).
* `Cache.Stalest` — the clean page whose last access is the oldest.  `Kept.evict?` says that it is
  the one that is evicted, and `Kept.evict?_eq_none_iff` when there is none.
* `Store.Stocked` — a store with such a cache, which holds no more pages than it may.
* `Store.loadUses`, `Store.installUses` — the accesses when a page is loaded or installed.
-/

set_option autoImplicit false
namespace TableStore

/-! ## The cache

The cache has the pages and the record of accesses, and every operation changes both.  The list of
all accesses stands for their history; no store keeps it. -/

namespace Cache

variable {log : List PageId} {c c' : Cache} {p q : PageId} {page : Page}

/-- The record of accesses fits the pages in memory and the list of all accesses: it tracks exactly
these pages, exactly the clean ones may be evicted, and they are in the order of their last
accesses. -/
structure Kept (log : List PageId) (c : Cache) : Prop where
  formed : c.recency.Formed
  keyed : ∀ p page, c.pages.get? p = some page → page.id = p
  tracked : ∀ p, p ∈ c.recency.order ↔ p ∈ c.pages.keys
  evictable : ∀ p, p ∈ c.recency.evictable ↔ c.isClean p = true
  recent : c.recency.order.Pairwise (LastBefore log)
  logged : ∀ p ∈ c.recency.order, p ∈ log

namespace Kept

theorem empty : Kept [] {} where
  formed := Recency.formed_empty
  keyed p page h := by cases h
  tracked p := Iff.rfl
  evictable p := iff_of_false (Distinct.not_mem_empty p) (by simp [isClean])
  recent := List.Pairwise.nil
  logged p h := absurd h List.not_mem_nil

theorem sound (h : Kept log c) : c.Sound where
  keyed := h.keyed
  clean p hp := isClean_iff.1 ((h.evictable p).1 hp)

theorem stamped (h : Kept log c) : p ∈ c.recency.stamps.keys ↔ p ∈ c.pages.keys := by
  rw [← h.formed.mem_order_iff, h.tracked]

/-- The page that is accessed now is the last in the order and in the list. -/
theorem recent_touch (h : Kept log c) (p : PageId) :
    (c.recency.touch p).order.Pairwise (LastBefore (log ++ [p])) ∧
      ∀ q ∈ (c.recency.touch p).order, q ∈ log ++ [p] := by
  rw [Recency.order_touch h.formed, List.pairwise_append]
  refine ⟨⟨?_, List.pairwise_singleton _ _, ?_⟩, ?_⟩
  · refine (h.recent.filter _).imp_of_mem fun {q q'} hq _ hlast => hlast.snoc ?_
    have hne := (List.mem_filter.1 hq).2
    simpa using Ne.symm (by simpa using hne)
  · intro q hq q' hq'
    obtain rfl := List.mem_singleton.1 hq'
    obtain ⟨hmem, hne⟩ := List.mem_filter.1 hq
    exact .last (h.logged q hmem) (Ne.symm (by simpa using hne))
  · intro q hq
    rcases List.mem_append.1 hq with hq | hq
    · exact List.mem_append_left _ (h.logged q (List.mem_filter.1 hq).1)
    · exact List.mem_append_right _ hq

/-- A page in memory is used. -/
theorem touch (h : Kept log c) (hp : p ∈ c.pages.keys) : Kept (log ++ [p]) (c.touch p) where
  formed := h.formed.touch p
  keyed := h.keyed
  tracked q := by
    rw [Cache.touch, Recency.order_touch h.formed, List.mem_append, List.mem_filter,
      List.mem_singleton, h.tracked]
    by_cases hq : q = p
    · simp [hq, hp]
    · simp [hq]
  evictable q := by
    rw [Cache.touch, Recency.evictable_touch]
    exact h.evictable q
  recent := (h.recent_touch p).1
  logged := (h.recent_touch p).2

theorem isClean_put (c : Cache) (page : Page) (clean : Bool) (q : PageId) :
    (c.put page clean).isClean q = true ↔
      if q = page.id then page.dirtier = none else c.isClean q = true := by
  rw [isClean_iff, get?_put]
  split
  · simp
  · rw [isClean_iff]

/-- A page is put in.  It may be evicted if it is clean. -/
theorem put (h : Kept log c) {clean : Bool} (hc : clean = true ↔ page.dirtier = none) :
    Kept (log ++ [page.id]) (c.put page clean) where
  formed := (h.formed.touch page.id).setEvictable page.id clean
  keyed p page' hp := by
    rw [get?_put] at hp
    split at hp
    · rename_i he
      cases hp
      exact he.symm
    · exact h.keyed p page' hp
  tracked q := by
    rw [Cache.put, Recency.order_setEvictable, Recency.order_touch h.formed, List.mem_append,
      List.mem_filter, List.mem_singleton, h.tracked, Assoc.keys_insert]
    by_cases hq : q = page.id
    · subst hq
      by_cases hm : page.id ∈ c.pages.keys <;> simp [hm]
    · by_cases hm : page.id ∈ c.pages.keys <;> simp [hm, hq]
  evictable q := by
    rw [isClean_put, Cache.put,
      Recency.mem_evictable_setEvictable_iff (Recency.stamped_touch _ _), Recency.evictable_touch,
      h.evictable]
    by_cases hq : q = page.id
    · simp [hq, hc]
    · simp [hq]
  recent := by
    rw [Cache.put, Recency.order_setEvictable]
    exact (h.recent_touch page.id).1
  logged := by
    rw [Cache.put, Recency.order_setEvictable]
    exact (h.recent_touch page.id).2

/-- A page is dropped. -/
theorem drop (h : Kept log c) (p : PageId) : Kept log (c.drop p) where
  formed := h.formed.remove p
  keyed q page hq := by
    rw [get?_drop] at hq
    split at hq
    · cases hq
    · exact h.keyed q page hq
  tracked q := by
    rw [Cache.drop, Recency.order_remove h.formed, List.mem_filter, h.tracked, Assoc.keys_erase,
      List.mem_filter]
  evictable q := by
    have hclean : (c.drop p).isClean q = true ↔ q ≠ p ∧ c.isClean q = true := by
      rw [isClean_iff, get?_drop, isClean_iff]
      by_cases hq : q = p <;> simp [hq]
    rw [hclean, Cache.drop, Recency.mem_evictable_remove, h.evictable]
  recent := by
    rw [Cache.drop, Recency.order_remove h.formed]
    exact h.recent.filter _
  logged q hq := by
    rw [Cache.drop, Recency.order_remove h.formed] at hq
    exact h.logged q (List.mem_filter.1 hq).1

theorem dropAll (h : Kept log c) (ps : List PageId) : Kept log (c.dropAll ps) :=
  List.foldlRecOn ps Cache.drop h fun _ hc p _ => hc.drop p

/-- A page is written, and is clean from now on.  That is no access. -/
theorem settle (h : Kept log c) (hp : c.pages.get? p = some page) :
    Kept log
      { pages := c.pages.insert p page.clean, recency := c.recency.setEvictable p true } where
  formed := h.formed.setEvictable p true
  keyed q page' hq := by
    rw [Assoc.get?_insert] at hq
    split at hq
    · rename_i he
      cases hq
      rw [he]
      exact h.keyed p page hp
    · exact h.keyed q page' hq
  tracked q := by
    have hm : p ∈ c.pages.keys := Assoc.mem_keys_iff.2 ⟨page, hp⟩
    rw [Recency.order_setEvictable, h.tracked, Assoc.keys_insert, if_pos hm]
  evictable q := by
    have hm : p ∈ c.recency.stamps.keys := h.stamped.2 (Assoc.mem_keys_iff.2 ⟨page, hp⟩)
    rw [Recency.mem_evictable_setEvictable_iff hm, isClean_iff, Assoc.get?_insert, h.evictable,
      isClean_iff]
    by_cases hq : q = p
    · simp [hq, Page.clean, Page.snapshot]
    · simp [hq]
  recent := by
    rw [Recency.order_setEvictable]
    exact h.recent
  logged := by
    rw [Recency.order_setEvictable]
    exact h.logged

end Kept

/-! ### Eviction -/

/-- The clean page whose last access is the oldest. -/
structure Stalest (log : List PageId) (c : Cache) (p : PageId) : Prop where
  clean : c.isClean p = true
  oldest : ∀ q, c.isClean q = true → q ≠ p → LastBefore log p q

theorem Kept.evict?_eq (h : Kept log c) :
    c.evict? = (c.recency.order.find? fun p => p ∈ c.recency.evictable).map c.drop := by
  rw [Cache.evict?, Recency.evict?_eq h.formed, Option.map_map]
  rfl

/-- **An eviction drops the clean page whose last access is the oldest.** -/
theorem Kept.evict? (h : Kept log c) (he : c.evict? = some c') :
    ∃ p, c' = c.drop p ∧ c.Stalest log p := by
  rw [h.evict?_eq, Option.map_eq_some_iff] at he
  obtain ⟨p, hfind, rfl⟩ := he
  obtain ⟨hp, before, after, horder, hnone⟩ := List.find?_eq_some_iff_append.1 hfind
  refine ⟨p, rfl, (h.evictable p).1 (by simpa using hp), fun q hq hne => ?_⟩
  have hev := (h.evictable q).2 hq
  have hmem : q ∈ c.recency.order := by
    obtain ⟨page, hpage, -⟩ := isClean_iff.1 hq
    exact (h.tracked q).2 (Assoc.mem_keys_iff.2 ⟨page, hpage⟩)
  have hrecent := h.recent
  rw [horder] at hmem hrecent
  -- no page before `p` in the order may be evicted, so `q` comes after it
  rcases List.mem_append.1 hmem with hbefore | hcons
  · have := hnone q hbefore
    simp [hev] at this
  · have hafter := (List.mem_cons.1 hcons).resolve_left hne
    exact (List.pairwise_cons.1 (List.pairwise_append.1 hrecent).2.1).1 q hafter

/-- Nothing can be evicted if every page in memory is dirty, and only then. -/
theorem Kept.evict?_eq_none_iff (h : Kept log c) :
    c.evict? = none ↔ ∀ p page, c.pages.get? p = some page → page.dirtier ≠ none := by
  rw [h.evict?_eq, Option.map_eq_none_iff, List.find?_eq_none]
  constructor
  · intro hnone p page hp hclean
    have hmem := (h.tracked p).2 (Assoc.mem_keys_iff.2 ⟨page, hp⟩)
    have hev := (h.evictable p).2 (isClean_iff.2 ⟨page, hp, hclean⟩)
    exact hnone p hmem (by simpa using hev)
  · intro hdirty p _ hev
    obtain ⟨page, hp, hclean⟩ := isClean_iff.1 ((h.evictable p).1 (by simpa using hev))
    exact hdirty p page hp hclean

theorem size_put (c : Cache) (page : Page) (clean : Bool) :
    (c.put page clean).size = if page.id ∈ c.pages.keys then c.size else c.size + 1 :=
  Assoc.size_insert _ _ _

theorem size_dropAll_le (c : Cache) (ps : List PageId) : (c.dropAll ps).size ≤ c.size := by
  refine List.foldlRecOn ps drop (motive := fun m => m.size ≤ c.size) (Nat.le_refl _)
    fun m hm p _ => ?_
  exact Nat.le_trans (Assoc.size_erase_le _ _) hm

end Cache

/-! ## The store -/

namespace Store

variable {n : Nat} {log : List PageId} {s s' : Store} {t : TxnId} {p : PageId} {page : Page}

/-- A store for `n` pages whose cache fits its record of accesses, and holds no more pages than it
may. -/
structure Stocked (n : Nat) (log : List PageId) (s : Store) : Prop where
  kept : s.cache.Kept log
  capacity_eq : s.capacity = n
  size_le : s.cache.size ≤ n

/-! ### Making room

One page is evicted at most, and none if there is room. -/

/-- Once room has been made there is room. -/
theorem Stocked.makeRoom (h : s.Stocked n log) (hr : s.makeRoom = .ok s') :
    s'.Stocked n log ∧ s'.cache.size < n := by
  rcases s.makeRoom_cases with ⟨hlt, he⟩ | ⟨-, -, he⟩ | ⟨c, hle, hc, he⟩
  · rw [he] at hr
    cases hr
    exact ⟨h, h.capacity_eq ▸ hlt⟩
  · rw [he] at hr
    cases hr
  · rw [he] at hr
    cases hr
    obtain ⟨p, rfl, hst⟩ := h.kept.evict? hc
    obtain ⟨page, hp, -⟩ := Cache.isClean_iff.1 hst.clean
    have hsize : (s.cache.drop p).size + 1 = s.cache.size :=
      Assoc.size_erase (Assoc.mem_keys_iff.2 ⟨page, hp⟩)
    have hroom : (s.cache.drop p).size < n := by
      have := h.size_le
      omega
    exact ⟨⟨h.kept.drop p, h.capacity_eq, Nat.le_of_lt hroom⟩, hroom⟩

/-! ### Loading a page -/

/-- The access that loading a page is: none if the page is not handed out. -/
def loadUses (s : Store) (t : TxnId) (p : PageId) : List PageId :=
  match (s.load t p).1 with
  | .ok _ => [p]
  | .error _ => []

theorem Stocked.load (h : s.Stocked n log) (t : TxnId) (p : PageId) :
    (s.load t p).2.Stocked n (log ++ s.loadUses t p) := by
  have hb : (s.bump .misses).Stocked n log := ⟨h.kept, h.capacity_eq, h.size_le⟩
  rw [loadUses]
  rcases s.load_cases t p with ⟨-, he⟩ | ⟨page, -, hp, he⟩ | ⟨e, -, -, -, he⟩ |
    ⟨m, e, -, -, hm, -, he⟩ | ⟨m, page, -, -, hm, hr, he⟩
  · rw [he, List.append_nil]
    exact h
  · rw [he]
    exact ⟨h.kept.touch (Assoc.mem_keys_iff.2 ⟨page, hp⟩), h.capacity_eq, h.size_le⟩
  · rw [he, List.append_nil]
    exact hb
  · rw [he, List.append_nil]
    exact (hb.makeRoom hm).1
  · rw [he]
    obtain ⟨hs, hroom⟩ := hb.makeRoom hm
    obtain ⟨rfl, hclean⟩ := of_readPage hr
    refine ⟨hs.kept.put (iff_of_true rfl hclean), hs.capacity_eq, ?_⟩
    dsimp only
    rw [Cache.size_put]
    split
    · exact hs.size_le
    · exact hroom

/-! ### Installing a page -/

/-- A victim installs no page.  For others the copy replaces the page, or room is made for it. -/
theorem install_cases (s : Store) (t : TxnId) (page : Page) :
    (t ∈ s.locks.aborted ∧ s.install t page = (.error (.aborted t), s)) ∨
    (∃ e, page.id ∉ s.cache.pages.keys ∧ s.makeRoom = .error e ∧ s.install t page = (.error e, s)) ∨
    ∃ m, (m = s ∧ page.id ∈ s.cache.pages.keys ∨
        page.id ∉ s.cache.pages.keys ∧ s.makeRoom = .ok m) ∧
      s.install t page = (.ok { page with dirtier := some t },
        { m with cache := m.cache.put { page with dirtier := some t } false }) := by
  rw [install]
  by_cases ha : t ∈ s.locks.aborted
  · rw [if_pos (by simpa [LockTable.isAborted] using ha)]
    exact .inl ⟨ha, rfl⟩
  · rw [if_neg (by simpa [LockTable.isAborted] using ha)]
    refine .inr ?_
    dsimp only
    by_cases hp : page.id ∈ s.cache.pages.keys
    · rw [if_pos (Assoc.contains_iff.2 hp)]
      exact .inr ⟨s, .inl ⟨rfl, hp⟩, rfl⟩
    · rw [if_neg fun hc => hp (Assoc.contains_iff.1 hc)]
      cases hm : s.makeRoom with
      | error e => exact .inl ⟨e, hp, rfl, rfl⟩
      | ok m => exact .inr ⟨m, .inr ⟨hp, rfl⟩, rfl⟩

/-- The access that installing a page is: none if it is refused. -/
def installUses (s : Store) (t : TxnId) (page : Page) : List PageId :=
  match (s.install t page).1 with
  | .ok _ => [page.id]
  | .error _ => []

theorem Stocked.install (h : s.Stocked n log) (t : TxnId) (page : Page) :
    (s.install t page).2.Stocked n (log ++ s.installUses t page) := by
  have hdirty : false = true ↔ { page with dirtier := some t }.dirtier = none :=
    iff_of_false Bool.false_ne_true (Option.some_ne_none t)
  rw [installUses]
  rcases s.install_cases t page with ⟨-, he⟩ | ⟨e, -, -, he⟩ | ⟨m, hm, he⟩
  · rw [he, List.append_nil]
    exact h
  · rw [he, List.append_nil]
    exact h
  · rw [he]
    rcases hm with ⟨rfl, hp⟩ | ⟨-, hm⟩
    · refine ⟨h.kept.put hdirty, h.capacity_eq, ?_⟩
      dsimp only
      rw [Cache.size_put, if_pos hp]
      exact h.size_le
    · obtain ⟨hs, hroom⟩ := h.makeRoom hm
      refine ⟨hs.kept.put hdirty, hs.capacity_eq, ?_⟩
      dsimp only
      rw [Cache.size_put]
      split
      · exact hs.size_le
      · exact hroom

/-! ### Writing and dropping pages -/

theorem Stocked.flushPage (h : s.Stocked n log) (hf : s.flushPage p = .ok s') : s'.Stocked n log := by
  rcases flushPage_cases hf with ⟨rfl, -⟩ | ⟨page, file, disk, hp, -, -, -, rfl⟩
  · exact h
  · refine ⟨h.kept.settle hp, h.capacity_eq, ?_⟩
    have hsize : (s.cache.pages.insert p page.clean).size = s.cache.size := by
      rw [Assoc.size_insert, if_pos (Assoc.mem_keys_iff.2 ⟨page, hp⟩)]
      rfl
    exact Nat.le_trans (Nat.le_of_eq hsize) h.size_le

theorem Stocked.flushPages (h : s.Stocked n log) (ps : List PageId) :
    (s.flushPages ps).2.Stocked n log :=
  flushPages_induction (fun _ _ _ hs hf => hs.flushPage hf) ps h

theorem Stocked.commit (h : s.Stocked n log) (t : TxnId) : (s.commit t).2.Stocked n log := by
  have hf := h.flushPages (s.cache.dirtyPages t)
  rcases commit_cases s t with ⟨-, he⟩ | ⟨e, -, -, he⟩ | ⟨-, -, he⟩
  · rw [he]
    exact h
  · rw [he]
    exact hf
  · rw [he]
    exact ⟨hf.kept, hf.capacity_eq, hf.size_le⟩

theorem Stocked.dropAll (h : s.Stocked n log) (ps : List PageId) :
    { s with cache := s.cache.dropAll ps }.Stocked n log :=
  ⟨h.kept.dropAll ps, h.capacity_eq,
    Nat.le_trans (Cache.size_dropAll_le _ _) h.size_le⟩

theorem Stocked.abort (h : s.Stocked n log) (t : TxnId) : (s.abort t).Stocked n log := by
  have hd := h.dropAll
    (s.cache.dirtyPages t ++ (s.locks.pagesHeld t).filter s.cache.isClean)
  rw [Store.abort]
  split <;> exact ⟨hd.kept, hd.capacity_eq, hd.size_le⟩

theorem Stocked.rollBack (h : s.Stocked n log) (us : List TxnId) :
    (us.foldl Store.rollBack s).Stocked n log := by
  refine List.foldlRecOn us Store.rollBack h fun m hm t _ => ?_
  have hd := hm.dropAll (m.cache.dirtyPages t)
  exact ⟨hd.kept, hd.capacity_eq, hd.size_le⟩

end Store
end TableStore
