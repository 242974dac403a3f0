import TableStore.Proofs.Lock.Reordered
import TableStore.Proofs.Pool.Deadlock
import TableStore.Proofs.Pool.Frame

/-!
# Stores in another order

The pages in memory, their stamps, the pages that may be evicted and the locks may all be enumerated
in any order.  Dropping pages and rolling back transactions commute, so what is left does not depend
on the order in which it is done.  The recency of pages is a matter of stamps and not of enumeration.

## What is here

* `Recency.Reordered`, `Cache.Reordered`, `Store.Reordered` — stores that differ in the orders of
  enumeration only.
* `Cache.drop_drop`, `Cache.Reordered.dropAll` — dropping pages.
* `Store.rollBack_rollBack`, `Store.Reordered.foldl_rollBack` — rolling back victims.
* `Store.Reordered.abort` — an abort.
* `Store.RolledBack`, `Store.Takes` — rolling back victims and taking a lock where every enumeration
  may come in another order.  `Store.Takes.unique` says that there is one outcome all the same.
-/

set_option autoImplicit false
namespace TableStore

/-! ## The record of accesses -/

namespace Recency

/-- The same stamps and marks, in whatever order.  Stamps are in their own order anyway. -/
structure Reordered (r r' : Recency) : Prop where
  clock_eq : r'.clock = r.clock
  stamps : r.stamps.Reordered r'.stamps
  byStamp_eq : r'.byStamp = r.byStamp
  evictable : r.evictable.Reordered r'.evictable

variable {r r' r'' : Recency}

namespace Reordered

theorem refl (r : Recency) : r.Reordered r := ⟨rfl, .refl _, rfl, .refl _⟩

theorem symm (h : r.Reordered r') : r'.Reordered r :=
  ⟨h.clock_eq.symm, h.stamps.symm, h.byStamp_eq.symm, h.evictable.symm⟩

theorem trans (h : r.Reordered r') (h' : r'.Reordered r'') : r.Reordered r'' :=
  ⟨h'.clock_eq.trans h.clock_eq, h.stamps.trans h'.stamps, h'.byStamp_eq.trans h.byStamp_eq,
    h.evictable.trans h'.evictable⟩

theorem remove (h : r.Reordered r') (p : PageId) : (r.remove p).Reordered (r'.remove p) := by
  rw [Recency.remove, Recency.remove, unstamp, unstamp, Assoc.reordered_iff.1 h.stamps p]
  cases r.stamps.get? p with
  | none => exact { h with evictable := h.evictable.erase p }
  | some stamp =>
    exact ⟨h.clock_eq, h.stamps.filter _, congrArg (·.erase stamp) h.byStamp_eq,
      h.evictable.erase p⟩

end Reordered

theorem entries_byStamp_remove (r : Recency) (p : PageId) : (r.remove p).byStamp.entries =
    r.byStamp.entries.filter fun e => r.stamps.get? p ≠ some e.1 := by
  rw [remove, unstamp]
  cases r.stamps.get? p with
  | none => exact (List.filter_eq_self.2 fun e _ => by simp).symm
  | some stamp => exact List.filter_congr fun e _ => by simp [eq_comm]

theorem get?_stamps_remove (r : Recency) (p q : PageId) :
    (r.remove p).stamps.get? q = if q = p then none else r.stamps.get? q :=
  get?_stamps_unstamp r p q

/-- Two pages may be forgotten in either order. -/
theorem remove_remove (r : Recency) (p q : PageId) :
    ((r.remove p).remove q).Reordered ((r.remove q).remove p) := by
  by_cases hpq : p = q
  · rw [hpq]
    exact .refl _
  refine ⟨?_, Assoc.reordered_iff.2 fun x => ?_, Assoc.ext ?_, ?_⟩
  · simp only [remove, clock_unstamp]
  · simp only [get?_stamps_remove]
    split <;> split <;> rfl
  · simp only [entries_byStamp_remove, get?_stamps_remove, if_neg hpq, if_neg (Ne.symm hpq),
      List.filter_filter, Bool.and_comm]
  · refine Distinct.reordered_iff.2 fun x => ?_
    simp only [mem_evictable_remove]
    exact and_left_comm

end Recency

/-! ## The pages in memory -/

namespace Cache

/-- The same pages, used in the same order and with the same marks. -/
structure Reordered (c c' : Cache) : Prop where
  pages : c.pages.Reordered c'.pages
  recency : c.recency.Reordered c'.recency

variable {c c' c'' : Cache} {ps ps' : List PageId}

namespace Reordered

theorem refl (c : Cache) : c.Reordered c := ⟨.refl _, .refl _⟩

theorem symm (h : c.Reordered c') : c'.Reordered c := ⟨h.pages.symm, h.recency.symm⟩

theorem trans (h : c.Reordered c') (h' : c'.Reordered c'') : c.Reordered c'' :=
  ⟨h.pages.trans h'.pages, h.recency.trans h'.recency⟩

theorem get?_eq (h : c.Reordered c') (p : PageId) : c'.pages.get? p = c.pages.get? p :=
  Assoc.reordered_iff.1 h.pages p

theorem dirtyPages (h : c.Reordered c') (t : TxnId) : (c.dirtyPages t).Perm (c'.dirtyPages t) :=
  h.pages.keysWhere _

theorem isClean_eq (h : c.Reordered c') : c'.isClean = c.isClean := funext fun p => by
  rw [isClean, isClean, h.get?_eq]

theorem drop (h : c.Reordered c') (p : PageId) : (c.drop p).Reordered (c'.drop p) :=
  ⟨h.pages.filter _, h.recency.remove p⟩

end Reordered

/-- Two pages may be dropped in either order. -/
theorem drop_drop (c : Cache) (p q : PageId) :
    ((c.drop p).drop q).Reordered ((c.drop q).drop p) := by
  refine ⟨Assoc.reordered_iff.2 fun x => ?_, c.recency.remove_remove p q⟩
  simp only [get?_drop]
  split <;> split <;> rfl

/-- **Pages may be dropped in any order.** -/
theorem Reordered.dropAll (h : c.Reordered c') (hps : ps.Perm ps') :
    (c.dropAll ps).Reordered (c'.dropAll ps') :=
  foldl_related_of_perm .refl (fun _ _ _ => .trans) (fun _ _ p hc => hc.drop p) drop_drop hps _ _ h

theorem dropAll_dropAll (c : Cache) (ps ps' : List PageId) :
    (c.dropAll ps).dropAll ps' = c.dropAll (ps ++ ps') :=
  List.foldl_append.symm

/-- Dropping the changes of one transaction leaves those of another one. -/
theorem dirtyPages_dropAll {t u : TxnId} (htu : t ≠ u) :
    ((c.dropAll (c.dirtyPages t)).dirtyPages u).Perm (c.dirtyPages u) := by
  refine (List.perm_ext_iff_of_nodup (Store.nodup_dirtyPages _ u)
    (Store.nodup_dirtyPages c u)).2 fun p => ?_
  rw [mem_dirtyPages, mem_dirtyPages, get?_dropAll]
  split
  · rename_i hp
    obtain ⟨page, hp, hd⟩ := mem_dirtyPages.1 hp
    constructor
    · rintro ⟨page', h, -⟩
      cases h
    · rintro ⟨page', hp', hd'⟩
      obtain rfl : page = page' := Option.some.inj (hp.symm.trans hp')
      exact absurd (Option.some.inj (hd.symm.trans hd')) htu
  · exact Iff.rfl

end Cache

/-! ## The store

Memory, locks and victims are enumerated in orders of their own.  Two stores that differ in these
orders only are told apart by nothing that is asked of them. -/

namespace Store

/-- Stores that differ in the orders of enumeration only: of the pages in memory, their stamps, the
pages that may be evicted, the locks of pages, the readers of a page, the holders of locks with what
they hold, and the victims. -/
structure Reordered (s s' : Store) : Prop where
  pageSize_eq : s'.pageSize = s.pageSize
  disk_eq : s'.disk = s.disk
  catalog_eq : s'.catalog = s.catalog
  cache : s.cache.Reordered s'.cache
  locks : s.locks.Reordered s'.locks
  stats_eq : s'.stats = s.stats
  capacity_eq : s'.capacity = s.capacity
  timeout_eq : s'.timeout = s.timeout

variable {a a' b b' s s' s'' m m' : Store} {t u : TxnId} {us us' : List TxnId} {r : Request}
  {x y : Except Error Unit} {l l' : LockTable}

namespace Reordered

theorem refl (s : Store) : s.Reordered s := ⟨rfl, rfl, rfl, .refl _, .refl _, rfl, rfl, rfl⟩

theorem symm (h : s.Reordered s') : s'.Reordered s :=
  ⟨h.pageSize_eq.symm, h.disk_eq.symm, h.catalog_eq.symm, h.cache.symm, h.locks.symm,
    h.stats_eq.symm, h.capacity_eq.symm, h.timeout_eq.symm⟩

theorem trans (h : s.Reordered s') (h' : s'.Reordered s'') : s.Reordered s'' :=
  ⟨h'.pageSize_eq.trans h.pageSize_eq, h'.disk_eq.trans h.disk_eq,
    h'.catalog_eq.trans h.catalog_eq, h.cache.trans h'.cache, h.locks.trans h'.locks,
    h'.stats_eq.trans h.stats_eq, h'.capacity_eq.trans h.capacity_eq,
    h'.timeout_eq.trans h.timeout_eq⟩

theorem bump (h : s.Reordered s') (c : Counter) : (s.bump c).Reordered (s'.bump c) :=
  { h with stats_eq := congrArg (·.bump c) h.stats_eq }

theorem withCache (h : s.Reordered s') {c c' : Cache} (hc : c.Reordered c') :
    Reordered { s with cache := c } { s' with cache := c' } :=
  { h with cache := hc }

theorem withLocks (h : s.Reordered s') (hl : l.Reordered l') :
    Reordered { s with locks := l } { s' with locks := l' } :=
  { h with locks := hl }

/-! ### Aborts -/

/-- **An abort depends on no order.** -/
theorem abort (h : s.Reordered s') (t : TxnId) : (s.abort t).Reordered (s'.abort t) := by
  have hheld := h.locks.pagesHeld t
  have hdoomed : (s.cache.dirtyPages t ++ (s.locks.pagesHeld t).filter s.cache.isClean).Perm
      (s'.cache.dirtyPages t ++ (s'.locks.pagesHeld t).filter s'.cache.isClean) := by
    rw [h.cache.isClean_eq]
    exact (h.cache.dirtyPages t).append (hheld.filter _)
  have hcounted : (s'.locks.isAborted t || !(s'.locks.pagesHeld t).isEmpty) =
      (s.locks.isAborted t || !(s.locks.pagesHeld t).isEmpty) := by
    rw [h.locks.isAborted_eq, hheld.isEmpty_eq]
  have hended := (h.withCache (h.cache.dropAll hdoomed)).withLocks (h.locks.complete t)
  rw [Store.abort, Store.abort, hcounted]
  split
  · exact hended.bump .aborts
  · exact hended

/-! ### Victims

The orders may change between any two rollbacks, since each rollback may move entries around.  So
the way in which a lock is taken is described with a change of order before every step of it. -/

theorem rollBack (h : s.Reordered s') (t : TxnId) : (s.rollBack t).Reordered (s'.rollBack t) :=
  (h.withCache (h.cache.dropAll (h.cache.dirtyPages t))).withLocks (h.locks.releaseAll t)

end Reordered

/-- Two transactions may be rolled back in either order. -/
theorem rollBack_rollBack (s : Store) (t u : TxnId) :
    ((s.rollBack t).rollBack u).Reordered ((s.rollBack u).rollBack t) := by
  by_cases htu : t = u
  · rw [htu]
    exact .refl _
  have hcache : ((s.rollBack t).rollBack u).cache.Reordered ((s.rollBack u).rollBack t).cache := by
    simp only [rollBack, Cache.dropAll_dropAll]
    refine .dropAll (.refl _) ?_
    have hu := Cache.dirtyPages_dropAll (c := s.cache) htu
    have ht := Cache.dirtyPages_dropAll (c := s.cache) (Ne.symm htu)
    exact (hu.append_left _).trans (List.perm_append_comm.trans (ht.symm.append_left _))
  exact (Reordered.withCache (.refl s) hcache).withLocks (s.locks.releaseAll_releaseAll t u)

/-- **Victims may be rolled back in any order.** -/
theorem Reordered.foldl_rollBack (h : s.Reordered s') (hus : us.Perm us') :
    (us.foldl Store.rollBack s).Reordered (us'.foldl Store.rollBack s') :=
  foldl_related_of_perm .refl (fun _ _ _ => .trans) (fun _ _ u hs => hs.rollBack u)
    rollBack_rollBack hus _ _ h

/-- The victims have been rolled back in this order.  Before each of them, all maps and sets may
have come to be enumerated in another order. -/
inductive RolledBack : List TxnId → Store → Store → Prop
  | nil {s s' : Store} : s.Reordered s' → RolledBack [] s s'
  | cons {t : TxnId} {us : List TxnId} {s m s' : Store} : s.Reordered m →
      RolledBack us (m.rollBack t) s' → RolledBack (t :: us) s s'

theorem RolledBack.reordered (h : RolledBack us s s') :
    (us.foldl rollBack s).Reordered s' := by
  induction h with
  | nil h => exact h
  | cons hm _ ih => exact ((hm.rollBack _).foldl_rollBack (.refl _)).trans ih

/-- A lock has been taken, or refused to a victim.  Before each request and before each victim is
rolled back, all maps and sets may have come to be enumerated in another order. -/
inductive Takes (r : Request) : Store → Except Error Unit → Store → Prop
  | granted {s m : Store} {l : LockTable} : s.Reordered m → m.locks.acquire r = (.granted, l) →
      Takes r s (.ok ()) { m with locks := l }
  | refused {s m : Store} {l : LockTable} : s.Reordered m → m.locks.acquire r = (.refused, l) →
      Takes r s (.error (.aborted r.txn)) { m with locks := l }
  | deadlock {s m w s' : Store} {l : LockTable} {us : List TxnId} {x : Except Error Unit} :
      s.Reordered m → m.locks.acquire r = (.deadlock us, l) →
      RolledBack us ({ m with locks := l }.bump .deadlocks) w → Takes r w x s' → Takes r s x s'

theorem rolledBack_foldl (s : Store) (us : List TxnId) : RolledBack us s (us.foldl rollBack s) := by
  induction us generalizing s with
  | nil => exact .nil (.refl s)
  | cons t us ih => exact .cons (.refl s) (ih _)

/-- Taking a lock in one order is a way to take it. -/
theorem takes_of_lock {n : Nat} (h : s.lock n r = some (x, s')) : s.Takes r x s' := by
  induction n generalizing s with
  | zero => cases h
  | succ n ih =>
    rw [lock] at h
    split at h
    · rename_i l hl
      cases h
      exact .granted (.refl s) hl
    · rename_i l hl
      cases h
      exact .refused (.refl s) hl
    · rename_i us l hl
      exact .deadlock (.refl s) hl (rolledBack_foldl _ us) (ih h)

theorem Takes.of_reordered (h : s.Takes r x s') (hm : m.Reordered s) : m.Takes r x s' := by
  cases h with
  | granted h hl => exact .granted (hm.trans h) hl
  | refused h hl => exact .refused (hm.trans h) hl
  | deadlock h hl hus hrest => exact .deadlock (hm.trans h) hl hus hrest

/-- A request has one verdict, with the victims in whatever order, and leaves one store. -/
theorem Reordered.verdict (h : a.Reordered b) (hm : a.Reordered m) (hm' : b.Reordered m')
    {v v' : Verdict} (hv : m.locks.acquire r = (v, l)) (hv' : m'.locks.acquire r = (v', l')) :
    v.Reordered v' ∧ Reordered { m with locks := l } { m' with locks := l' } := by
  have hsame := (hm.symm.trans h).trans hm'
  have hboth := hsame.locks.acquire r
  rw [hv, hv'] at hboth
  exact ⟨hboth.1, hsame.withLocks hboth.2⟩

/-- **A lock is taken in one way only**, whatever the orders are. -/
theorem Takes.unique (ha : a.Takes r x a') (hb : b.Takes r y b') (h : a.Reordered b) :
    y = x ∧ a'.Reordered b' := by
  induction ha generalizing b with
  | granted hm hl =>
    cases hb with
    | granted hm' hl' => exact ⟨rfl, (h.verdict hm hm' hl hl').2⟩
    | refused hm' hl' => cases (h.verdict hm hm' hl hl').1
    | deadlock hm' hl' => cases (h.verdict hm hm' hl hl').1
  | refused hm hl =>
    cases hb with
    | granted hm' hl' => cases (h.verdict hm hm' hl hl').1
    | refused hm' hl' => exact ⟨rfl, (h.verdict hm hm' hl hl').2⟩
    | deadlock hm' hl' => cases (h.verdict hm hm' hl hl').1
  | deadlock hm hl hus _ ih =>
    cases hb with
    | granted hm' hl' => cases (h.verdict hm hm' hl hl').1
    | refused hm' hl' => cases (h.verdict hm hm' hl hl').1
    | deadlock hm' hl' hus' hrest' =>
      obtain ⟨hv, hstruck⟩ := h.verdict hm hm' hl hl'
      cases hv with
      | deadlock hperm =>
        have hleft := (hstruck.bump .deadlocks).foldl_rollBack hperm
        exact ih hrest' ((hus.reordered.symm.trans hleft).trans hus'.reordered)

end Store
end TableStore
