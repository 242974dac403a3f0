import TableStore.Proofs.Lock.Alone
import TableStore.Proofs.Lock.Signals
import TableStore.Proofs.Reordered

/-!
# Lock tables in another order

The holders of a page, the pages of a holder, the holders themselves and the victims may all be
enumerated in any order.  What is asked of a table does not depend on it, nor does what becomes of
the table; the victims of a deadlock are the same, in whatever order.

## What is here

* `PageLock.Reordered`, `Holdings.Reordered`, `LockTable.Reordered` — tables that differ in the
  orders of enumeration only.
* `LockTable.get?_pages_releaseAll`, `LockTable.signals_releaseAll` — what giving back all locks
  does, without any order.
* `LockTable.Reordered.releaseAll`, `LockTable.releaseAll_releaseAll` — giving back all locks, of
  one transaction or of two.
* `LockTable.Reordered.acquire` — asking for a lock.
-/

set_option autoImplicit false
namespace TableStore

/-! ## One page, one holder

The readers of a page and the pages of a holder are sets that are enumerated in some order.  Nothing
that is asked of them depends on it. -/

/-- The same holders, in whatever order. -/
structure PageLock.Reordered (k k' : PageLock) : Prop where
  readers : k.readers.Reordered k'.readers
  writer_eq : k'.writer = k.writer
  waiting_eq : k'.waiting = k.waiting

/-- The same pages, in whatever order. -/
structure Holdings.Reordered (h h' : Holdings) : Prop where
  shared : h.shared.Reordered h'.shared
  exclusive : h.exclusive.Reordered h'.exclusive

namespace PageLock

variable {k k' k'' : PageLock}

namespace Reordered

theorem refl (k : PageLock) : k.Reordered k := ⟨.refl _, rfl, rfl⟩

theorem symm (h : k.Reordered k') : k'.Reordered k :=
  ⟨h.readers.symm, h.writer_eq.symm, h.waiting_eq.symm⟩

theorem trans (h : k.Reordered k') (h' : k'.Reordered k'') : k.Reordered k'' :=
  ⟨h.readers.trans h'.readers, h'.writer_eq.trans h.writer_eq, h'.waiting_eq.trans h.waiting_eq⟩

/-- A transaction is dropped from both. -/
theorem without (h : k.Reordered k') (t : TxnId) : (k.without t).Reordered (k'.without t) where
  readers := h.readers.erase t
  writer_eq := by rw [PageLock.without, PageLock.without, h.writer_eq]
  waiting_eq := h.waiting_eq

/-- A request is admitted to both or to none. -/
theorem admits_eq (h : k.Reordered k') (t : TxnId) (m : Mode) : k'.admits t m = k.admits t m := by
  obtain ⟨readers, writer, waiting⟩ := k
  obtain ⟨readers', writer', waiting'⟩ := k'
  obtain ⟨hreaders, rfl, rfl⟩ := h
  dsimp only at hreaders
  have hmem := Distinct.reordered_iff.1 hreaders t
  cases writer' with
  | some w => rfl
  | none =>
    cases m with
    | shared => exact congrArg (· || _) (decide_eq_decide.2 hmem.symm)
    | exclusive => exact hreaders.symm.all_eq

end Reordered

/-- Dropping a transaction twice is dropping it once. -/
theorem without_without_self (k : PageLock) (t : TxnId) :
    (k.without t).without t = k.without t := by
  simp only [without, Distinct.erase, List.filter_filter, Bool.and_self]
  split <;> simp_all

/-- Two transactions may be dropped in either order. -/
theorem without_without (k : PageLock) (t u : TxnId) :
    (k.without t).without u = (k.without u).without t := by
  have hwriter : ((k.without t).without u).writer = ((k.without u).without t).writer := by
    simp only [without]
    by_cases ht : k.writer = some t <;> by_cases hu : k.writer = some u <;> simp [ht, hu]
  have hreaders : ((k.without t).without u).readers = ((k.without u).without t).readers :=
    k.readers.erase_erase t u
  exact PageLock.mk.injEq .. ▸ ⟨hreaders, hwriter, rfl⟩

end PageLock

namespace Holdings.Reordered

variable {h h' h'' : Holdings}

theorem refl (h : Holdings) : h.Reordered h := ⟨.refl _, .refl _⟩

theorem symm (r : h.Reordered h') : h'.Reordered h := ⟨r.shared.symm, r.exclusive.symm⟩

theorem trans (r : h.Reordered h') (r' : h'.Reordered h'') : h.Reordered h'' :=
  ⟨r.shared.trans r'.shared, r.exclusive.trans r'.exclusive⟩

/-- The pages of a holder come in another order. -/
theorem pages (r : h.Reordered h') : h.pages.Perm h'.pages := r.shared.append r.exclusive

end Holdings.Reordered

/-- The same verdict, with the victims in whatever order. -/
inductive Verdict.Reordered : Verdict → Verdict → Prop
  | granted : Reordered .granted .granted
  | refused : Reordered .refused .refused
  | deadlock {us us' : List TxnId} : us.Perm us' → Reordered (.deadlock us) (.deadlock us')

/-! ## Tables -/

namespace LockTable

/-- The same locks, victims and signals, with maps and sets in whatever order. -/
structure Reordered (l l' : LockTable) : Prop where
  pages : l.pages.Matches PageLock.Reordered l'.pages
  holdings : l.holdings.Matches Holdings.Reordered l'.holdings
  aborted : l.aborted.Reordered l'.aborted
  signals_eq : l'.signals = l.signals

variable {l l' l'' m m' : LockTable} {t u : TxnId} {p q : PageId} {r : Request}

/-! ### Giving back all locks

The pages are gone through in the order in which the set of the holder lists them.  To drop a holder
from one page is no matter of other pages, so all orders lead to the same table. -/

/-- The entry of a page after a transaction has been dropped from some pages: only whether the page
is among them counts. -/
theorem get?_pages_foldl_dropHolder (l : LockTable) (t : TxnId) (ps : List PageId) (q : PageId) :
    (ps.foldl (fun l p => l.dropHolder t p) l).pages.get? q =
      if q ∈ ps then (l.pages.get? q).map (·.without t) else l.pages.get? q := by
  induction ps generalizing l with
  | nil => rfl
  | cons p ps ih =>
    rw [List.foldl_cons, ih, dropHolder, Assoc.get?_modify]
    by_cases hq : q = p
    · simp [hq, Function.comp_def, PageLock.without_without_self]
    · simp [hq]

/-- The entry of a page after a transaction has given everything back. -/
theorem get?_pages_releaseAll (l : LockTable) (t : TxnId) (q : PageId) :
    (l.releaseAll t).pages.get? q =
      if q ∈ l.pagesHeld t then (l.pages.get? q).map (·.without t) else l.pages.get? q := by
  rw [releaseAll, pagesHeld]
  cases l.holdings.get? t with
  | none => rfl
  | some held => exact get?_pages_foldl_dropHolder _ t held.pages q

/-- Giving everything back is one signal, if there is an entry. -/
theorem signals_releaseAll (l : LockTable) (t : TxnId) : (l.releaseAll t).signals =
    l.signals + if (l.holdings.get? t).isSome then 1 else 0 := by
  rw [releaseAll]
  cases l.holdings.get? t with
  | none => rfl
  | some held => exact congrArg (· + 1) (signals_foldl_dropHolder _ t held.pages)

namespace Reordered

theorem refl (l : LockTable) : l.Reordered l :=
  ⟨.refl PageLock.Reordered.refl _, .refl Holdings.Reordered.refl _, .refl _, rfl⟩

theorem symm (h : l.Reordered l') : l'.Reordered l :=
  ⟨h.pages.symm fun _ _ => PageLock.Reordered.symm,
    h.holdings.symm fun _ _ => Holdings.Reordered.symm, h.aborted.symm, h.signals_eq.symm⟩

theorem trans (h : l.Reordered l') (h' : l'.Reordered l'') : l.Reordered l'' :=
  ⟨h.pages.trans (fun _ _ _ => PageLock.Reordered.trans) h'.pages,
    h.holdings.trans (fun _ _ _ => Holdings.Reordered.trans) h'.holdings,
    h.aborted.trans h'.aborted, h'.signals_eq.trans h.signals_eq⟩

theorem mem_aborted_iff (h : l.Reordered l') (t : TxnId) : t ∈ l.aborted ↔ t ∈ l'.aborted :=
  Distinct.reordered_iff.1 h.aborted t

/-- Both tables have the same victims. -/
theorem isAborted_eq (h : l.Reordered l') (t : TxnId) : l'.isAborted t = l.isAborted t :=
  decide_eq_decide.2 (h.mem_aborted_iff t).symm

/-- The pages that a transaction holds come in another order. -/
theorem pagesHeld (h : l.Reordered l') (t : TxnId) : (l.pagesHeld t).Perm (l'.pagesHeld t) := by
  rw [LockTable.pagesHeld, LockTable.pagesHeld]
  rcases h.holdings.cases t with ⟨ht, ht'⟩ | ⟨held, held', ht, ht', hheld⟩
  · rw [ht, ht']
  · rw [ht, ht']
    exact hheld.pages

/-- A transaction gives everything back in both. -/
theorem releaseAll (h : l.Reordered l') (t : TxnId) :
    (l.releaseAll t).Reordered (l'.releaseAll t) where
  pages q := by
    rw [get?_pages_releaseAll, get?_pages_releaseAll]
    have hmem := (h.pagesHeld t).mem_iff (a := q)
    rcases h.pages.cases q with ⟨hq, hq'⟩ | ⟨k, k', hq, hq', hk⟩
    · rw [hq, hq', Option.map_none, ite_self, ite_self]
      exact .none
    · by_cases hheld : q ∈ l.pagesHeld t
      · rw [if_pos hheld, if_pos (hmem.1 hheld), hq, hq']
        exact .some (hk.without t)
      · rw [if_neg hheld, if_neg (mt hmem.2 hheld)]
        exact h.pages q
  holdings u := by
    rw [get?_holdings_releaseAll, get?_holdings_releaseAll]
    split
    · exact .none
    · exact h.holdings u
  aborted := by
    rw [aborted_releaseAll, aborted_releaseAll]
    exact h.aborted
  signals_eq := by
    rw [signals_releaseAll, signals_releaseAll, h.signals_eq]
    rcases h.holdings.cases t with ⟨ht, ht'⟩ | ⟨held, held', ht, ht', -⟩
    · rw [ht, ht']
    · rw [ht, ht']
      rfl

theorem complete (h : l.Reordered l') (t : TxnId) : (l.complete t).Reordered (l'.complete t) :=
  { h.releaseAll t with aborted := (h.releaseAll t).aborted.erase t }

end Reordered

/-- What others hold stays. -/
theorem pagesHeld_releaseAll (l : LockTable) (hu : u ≠ t) :
    (l.releaseAll t).pagesHeld u = l.pagesHeld u := by
  rw [pagesHeld, get?_holdings_releaseAll, if_neg hu, pagesHeld]

/-- Two transactions may give back their locks in either order. -/
theorem releaseAll_releaseAll (l : LockTable) (t u : TxnId) :
    ((l.releaseAll t).releaseAll u).Reordered ((l.releaseAll u).releaseAll t) := by
  by_cases htu : t = u
  · rw [htu]
    exact .refl _
  have hut := Ne.symm htu
  have hpages : ∀ q, ((l.releaseAll t).releaseAll u).pages.get? q =
      ((l.releaseAll u).releaseAll t).pages.get? q := fun q => by
    simp only [get?_pages_releaseAll, pagesHeld_releaseAll l htu, pagesHeld_releaseAll l hut]
    by_cases ht : q ∈ l.pagesHeld t <;> by_cases hu : q ∈ l.pagesHeld u <;>
      simp [ht, hu, Function.comp_def, PageLock.without_without _ t u]
  have hholdings : ∀ v, ((l.releaseAll t).releaseAll u).holdings.get? v =
      ((l.releaseAll u).releaseAll t).holdings.get? v := fun v => by
    simp only [get?_holdings_releaseAll]
    split <;> split <;> rfl
  refine ⟨fun q => ?_, fun v => ?_, ?_, ?_⟩
  · rw [hpages q]
    exact Assoc.Matches.refl PageLock.Reordered.refl _ q
  · rw [hholdings v]
    exact Assoc.Matches.refl Holdings.Reordered.refl _ v
  · simp only [aborted_releaseAll]
    exact .refl _
  · simp only [signals_releaseAll, get?_holdings_releaseAll, if_neg htu, if_neg hut]
    omega

/-! ### Asking for a lock -/

namespace Reordered

/-- A page has an entry in both or in none. -/
theorem contains_eq (h : l.Reordered l') (p : PageId) :
    l'.pages.contains p = l.pages.contains p := by
  rw [Assoc.contains, Assoc.contains]
  rcases h.pages.cases p with ⟨hp, hp'⟩ | ⟨k, k', hp, hp', -⟩
  · rw [hp, hp']
  · rw [hp, hp']
    rfl

theorem signal (h : l.Reordered l') : l.signal.Reordered l'.signal :=
  { h with signals_eq := congrArg (· + 1) h.signals_eq }

theorem enter (h : l.Reordered l') (p : PageId) : (l.enter p).Reordered (l'.enter p) := by
  rw [LockTable.enter, LockTable.enter, h.contains_eq]
  split
  · exact h
  · exact { h with pages := h.pages.insert p (.refl _) }

theorem admits_eq (h : l.Reordered l') (r : Request) : l'.admits r = l.admits r := by
  rw [admits, admits]
  rcases h.pages.cases r.page with ⟨hp, hp'⟩ | ⟨k, k', hp, hp', hk⟩
  · rw [hp, hp']
  · rw [hp, hp']
    exact hk.admits_eq r.txn r.mode

/-- A lock is granted in both. -/
theorem grant (h : l.Reordered l') (t : TxnId) (p : PageId) (m : Mode) :
    (l.grant t p m).Reordered (l'.grant t p m) := by
  rw [LockTable.grant, LockTable.grant]
  rcases h.pages.cases p with ⟨hp, hp'⟩ | ⟨k, k', hp, hp', hk⟩
  · rw [hp, hp']
    exact h
  · have hheld : ((l.holdings.get? t).getD {}).Reordered ((l'.holdings.get? t).getD {}) := by
      rcases h.holdings.cases t with ⟨ht, ht'⟩ | ⟨held, held', ht, ht', hheld⟩
      · rw [ht, ht']
        exact .refl _
      · rw [ht, ht']
        exact hheld
    rw [hp, hp']
    cases m with
    | shared =>
      dsimp only
      rw [hk.writer_eq]
      split
      · exact { h with holdings := h.holdings.insert t hheld }
      · exact { h with
          pages := h.pages.insert p ⟨hk.readers.insert t, rfl, hk.waiting_eq⟩
          holdings := h.holdings.insert t { hheld with shared := hheld.shared.insert p } }
    | exclusive =>
      exact { h with
        pages := h.pages.insert p ⟨hk.readers.erase t, rfl, hk.waiting_eq⟩
        holdings := h.holdings.insert t ⟨hheld.shared.erase p, hheld.exclusive.insert p⟩ }

theorem startWaiting (h : l.Reordered l') (r : Request) :
    (l.startWaiting r).Reordered (l'.startWaiting r) := by
  rw [LockTable.startWaiting, LockTable.startWaiting]
  cases r.mode with
  | shared => exact h
  | exclusive =>
    refine { h with pages := h.pages.modify r.page fun k k' hk => ?_ }
    exact { hk with waiting_eq := congrArg (· + 1) hk.waiting_eq }

/-- A wait ends in both.  The last writer that stops waiting signals, and it is the last in both. -/
theorem stopWaiting (h : l.Reordered l') (r : Request) :
    (l.stopWaiting r).Reordered (l'.stopWaiting r) := by
  rw [LockTable.stopWaiting, LockTable.stopWaiting]
  cases r.mode with
  | shared => exact h
  | exclusive =>
    rcases h.pages.cases r.page with ⟨hp, hp'⟩ | ⟨k, k', hp, hp', hk⟩
    · rw [hp, hp']
      exact h
    · have hwaiting : k'.waiting - 1 = k.waiting - 1 := congrArg (· - 1) hk.waiting_eq
      have hleft : Reordered
          { l with pages := l.pages.insert r.page { k with waiting := k.waiting - 1 } }
          { l' with pages := l'.pages.insert r.page { k' with waiting := k'.waiting - 1 } } :=
        { h with pages := h.pages.insert r.page ⟨hk.readers, hk.writer_eq, hwaiting⟩ }
      rw [hp, hp']
      dsimp only
      by_cases hzero : k.waiting - 1 = 0
      · rw [if_pos hzero, if_pos (hwaiting.trans hzero)]
        exact hleft.signal
      · rw [if_neg hzero, if_neg (hwaiting ▸ hzero)]
        exact hleft

/-- The first look has the same answer in both. -/
theorem ask (h : l.Reordered l') (r : Request) :
    (l'.ask r).1 = (l.ask r).1 ∧ (l.ask r).2.Reordered (l'.ask r).2 := by
  rw [LockTable.ask, LockTable.ask]
  by_cases ha : r.txn ∈ l.aborted
  · rw [if_pos ha, if_pos ((h.mem_aborted_iff _).1 ha)]
    exact ⟨rfl, h⟩
  · have henter := h.enter r.page
    rw [if_neg ha, if_neg (mt (h.mem_aborted_iff _).2 ha)]
    dsimp only
    rw [henter.admits_eq]
    split
    · exact ⟨rfl, henter.grant _ _ _⟩
    · exact ⟨rfl, henter.startWaiting r⟩

/-- The victims of a deadlock come in another order. -/
theorem victimsOf (h : l.Reordered l') (t : TxnId) : (l.victimsOf t).Perm (l'.victimsOf t) := by
  have hpick : (fun u => decide (u ≠ t) && !l'.isAborted u) =
      fun u => decide (u ≠ t) && !l.isAborted u := funext fun u => by rw [h.isAborted_eq]
  rw [LockTable.victimsOf, LockTable.victimsOf, hpick]
  exact h.holdings.keys.filter _

/-- The last look has the same verdict in both, with the victims in another order. -/
theorem expire (h : l.Reordered l') (r : Request) :
    Verdict.Reordered (l.expire r).1 (l'.expire r).1 ∧
      (l.expire r).2.Reordered (l'.expire r).2 := by
  rw [LockTable.expire, LockTable.expire]
  have hstop := h.stopWaiting r
  by_cases ha : r.txn ∈ l.aborted
  · rw [if_pos ha, if_pos ((h.mem_aborted_iff _).1 ha)]
    exact ⟨.refused, hstop⟩
  · rw [if_neg ha, if_neg (mt (h.mem_aborted_iff _).2 ha), h.admits_eq]
    split
    · exact ⟨.granted, hstop.grant _ _ _⟩
    · have hvictims := hstop.victimsOf r.txn
      refine ⟨.deadlock hvictims, Reordered.signal { hstop with aborted := ?_ }⟩
      refine Distinct.reordered_iff.2 fun u => ?_
      rw [mem_foldl_insert, mem_foldl_insert, hstop.mem_aborted_iff, hvictims.mem_iff]

/-- **Asking for a lock depends on no order.** -/
theorem acquire (h : l.Reordered l') (r : Request) :
    Verdict.Reordered (l.acquire r).1 (l'.acquire r).1 ∧
      (l.acquire r).2.Reordered (l'.acquire r).2 := by
  obtain ⟨hanswer, htable⟩ := h.ask r
  rw [LockTable.acquire, LockTable.acquire]
  generalize l.ask r = x, l'.ask r = x' at hanswer htable
  obtain ⟨answer, m⟩ := x
  obtain ⟨answer', m'⟩ := x'
  dsimp only at hanswer htable
  subst hanswer
  cases answer' with
  | granted => exact ⟨.granted, htable⟩
  | refused => exact ⟨.refused, htable⟩
  | waiting => exact htable.expire r

end Reordered
end LockTable
end TableStore
