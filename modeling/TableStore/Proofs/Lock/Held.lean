import TableStore.Proofs.Lock.Consistency

/-!
# What a look at a request changes

A request may be looked at three times over: when it is made, when it is woken, and when its time is
up.  Each look grants the request, refuses it, or leaves it waiting, and all three do the same to
the locks of the table.

## What is here

* `LockTable.heldMode?_grant`, `LockTable.heldMode?_releaseAll`, `LockTable.heldMode?_release` — the
  locks of all transactions after a grant and after a release.
* `LockTable.Looked` — the effect of a look: nobody else is affected, and the requester gets the
  lock exactly if the answer says so.
* `LockTable.looked_ask`, `LockTable.looked_wake`, `LockTable.expire_cases` — the three looks.
* `LockTable.Deadlocked`, `LockTable.mem_victimsOf` — the last look may declare a deadlock, and marks
  the other transactions that hold locks.
-/

set_option autoImplicit false
namespace TableStore
namespace LockTable

variable {l : LockTable}

/-! ## Marks

A mark is given by a deadlock and taken away by the end of its transaction.  Whatever else happens
to a table leaves the marks alone. -/

@[simp] theorem aborted_enter (l : LockTable) (p : PageId) : (l.enter p).aborted = l.aborted := by
  rw [enter]
  split <;> rfl

@[simp] theorem aborted_grant (l : LockTable) (t : TxnId) (p : PageId) (m : Mode) :
    (l.grant t p m).aborted = l.aborted := by
  rw [grant]
  split
  · rfl
  · split
    · dsimp only
      split <;> rfl
    · rfl

@[simp] theorem aborted_startWaiting (l : LockTable) (r : Request) :
    (l.startWaiting r).aborted = l.aborted := by
  rw [startWaiting]
  split <;> rfl

@[simp] theorem aborted_stopWaiting (l : LockTable) (r : Request) :
    (l.stopWaiting r).aborted = l.aborted := by
  rw [stopWaiting]
  split
  · dsimp only
    split <;> rfl
  · rfl

/-- A transaction that is dropped from some pages keeps its mark. -/
theorem aborted_foldl_dropHolder (l : LockTable) (t : TxnId) (ps : List PageId) :
    (ps.foldl (fun l p => l.dropHolder t p) l).aborted = l.aborted := by
  induction ps generalizing l with
  | nil => rfl
  | cons p ps ih => rw [List.foldl_cons, ih]; rfl

@[simp] theorem aborted_releaseAll (l : LockTable) (t : TxnId) :
    (l.releaseAll t).aborted = l.aborted := by
  rw [releaseAll]
  split
  · rfl
  · dsimp only [signal]
    rw [aborted_foldl_dropHolder]

theorem aborted_release {t : TxnId} {p : PageId} {m : LockTable} (h : l.release t p = .ok m) :
    m.aborted = l.aborted := by
  rw [release] at h
  split at h
  · cases h
    simp only [signal, dropHolding]
    split
    · rfl
    · split <;> rfl
  · cases h

/-- The end of a transaction takes its mark away, and nobody else's. -/
theorem mem_aborted_complete {t u : TxnId} :
    u ∈ (l.complete t).aborted ↔ u ≠ t ∧ u ∈ l.aborted := by
  rw [complete, unmark, aborted_releaseAll, Distinct.mem_erase]

/-! ## Locks after a grant and after a release -/

/-- What is held after one page and one holder have been written. -/
theorem heldMode?_write (l : LockTable) (t u : TxnId) (p q : PageId) (k : PageLock)
    (hd : Holdings) :
    heldMode? { l with pages := l.pages.insert p k, holdings := l.holdings.insert t hd } u q =
      if u = t then hd.mode? q else l.heldMode? u q := by
  rw [heldMode?_eq, held_write]
  split
  · rfl
  · rw [heldMode?_eq]

/-- A page that is held shared from now on; it must not be held exclusively. -/
theorem mode?_insert_shared {h : Holdings} {p : PageId} (q : PageId) (hp : p ∉ h.exclusive) :
    Holdings.mode? { h with shared := h.shared.insert p } q =
      if q = p then some .shared else h.mode? q := by
  by_cases hq : q = p
  · simp [Holdings.mode?, Distinct.mem_insert, hq, hp]
  · simp [Holdings.mode?, Distinct.mem_insert, hq]

/-- A page that is held exclusively from now on is not held shared any more. -/
theorem mode?_insert_exclusive (h : Holdings) (p q : PageId) :
    Holdings.mode? ⟨h.shared.erase p, h.exclusive.insert p⟩ q =
      if q = p then some .exclusive else h.mode? q := by
  by_cases hq : q = p
  · simp [Holdings.mode?, Distinct.mem_insert, hq]
  · simp [Holdings.mode?, Distinct.mem_insert, Distinct.mem_erase, hq]

/-- A grant gives the requester the lock, or leaves it the exclusive lock that it has. -/
theorem heldMode?_grant (h : Consistent l) {r : Request} (ha : l.admits r = true) (u : TxnId)
    (q : PageId) :
    (l.grant r.txn r.page r.mode).heldMode? u q =
      if u = r.txn ∧ q = r.page then
        some (if l.heldMode? r.txn r.page = some .exclusive then .exclusive else r.mode)
      else l.heldMode? u q := by
  obtain ⟨k, hk, -⟩ := get?_of_admits ha
  cases hm : r.mode with
  | exclusive =>
    rw [grant_exclusive_eq hk, heldMode?_write, mode?_insert_exclusive]
    simp only [heldMode?_eq]
    grind
  | shared =>
    by_cases hw : l.writer? r.page = some r.txn
    · have hx := h.heldMode?_exclusive_iff.2 hw
      rw [(sameLocks_grant_shared h hw).heldMode?_eq, if_pos hx]
      grind
    · have hx : l.heldMode? r.txn r.page ≠ some .exclusive := fun hx =>
        hw (h.heldMode?_exclusive_iff.1 hx)
      have hp : r.page ∉ (l.held r.txn).exclusive := fun hp => hw ((h.writer_iff _ _).2 hp)
      rw [grant_shared_eq hk hw, heldMode?_write, mode?_insert_shared q hp, if_neg hx]
      simp only [heldMode?_eq]
      grind

/-- A grant leaves the entries of others. -/
theorem get?_holdings_grant (l : LockTable) {t u : TxnId} (hu : u ≠ t) (p : PageId) (m : Mode) :
    (l.grant t p m).holdings.get? u = l.holdings.get? u := by
  rw [grant]
  split
  · rfl
  · split
    · dsimp only
      split
      · rw [Assoc.get?_insert, if_neg hu]
      · rw [Assoc.get?_insert, if_neg hu]
    · rw [Assoc.get?_insert, if_neg hu]

/-- Whoever gives everything back holds nothing, and the others hold what they have held. -/
theorem heldMode?_releaseAll (l : LockTable) (t u : TxnId) (q : PageId) :
    (l.releaseAll t).heldMode? u q = if u = t then none else l.heldMode? u q := by
  rw [heldMode?, get?_holdings_releaseAll]
  split <;> rfl

theorem heldMode?_complete (l : LockTable) (t u : TxnId) (q : PageId) :
    (l.complete t).heldMode? u q = if u = t then none else l.heldMode? u q :=
  heldMode?_releaseAll l t u q

theorem get?_holdings_complete (l : LockTable) (t u : TxnId) :
    (l.complete t).holdings.get? u = if u = t then none else l.holdings.get? u :=
  get?_holdings_releaseAll l t u

/-- One lock is given back, and no other one. -/
theorem heldMode?_release {t : TxnId} {p : PageId} {m : LockTable} (h : l.release t p = .ok m)
    (u : TxnId) (q : PageId) :
    m.heldMode? u q = if u = t ∧ q = p then none else l.heldMode? u q := by
  rw [release] at h
  split at h
  · cases h
    have hs : ∀ u, (l.dropHolder t p).held u = l.held u := fun _ => rfl
    have hm := mem_held_dropHolding (l := l.dropHolder t p) (t := t) (u := u) (p := p) (q := q)
    rw [(sameLocks_signal _).heldMode?_eq, heldMode?_eq, heldMode?_eq]
    rw [hs] at hm
    split
    · rename_i he
      exact Holdings.mode?_eq_none_iff.2 ⟨fun hq => (hm.1.1 hq).2 he, fun hq => (hm.2.1 hq).2 he⟩
    · rename_i he
      simp only [Holdings.mode?, hm.1, hm.2, he, not_false_eq_true, and_true]
  · cases h

theorem get?_holdings_release {t : TxnId} {p : PageId} {m : LockTable} (h : l.release t p = .ok m)
    {u : TxnId} (hu : u ≠ t) : m.holdings.get? u = l.holdings.get? u := by
  rw [release] at h
  split at h
  · cases h
    simp only [signal, dropHolding, dropHolder]
    split
    · rfl
    · split
      · rw [Assoc.get?_erase, if_neg hu]
      · rw [Assoc.get?_insert, if_neg hu]
  · cases h

/-! ## Looks

This is all that has to be known of a look: who may have got a lock, that nobody has lost one, and
that no marks are given.  The last look at a request is of this kind as well, unless it declares a
deadlock. -/

/-- What a look at the request `r` with the answer `a` makes of a table. -/
structure Looked (l : LockTable) (r : Request) (a : Answer) (m : LockTable) : Prop where
  consistent : m.Consistent
  aborted_eq : m.aborted = l.aborted
  /-- The entries of others stay. -/
  others : ∀ u, u ≠ r.txn → m.holdings.get? u = l.holdings.get? u
  /-- Only victims are refused. -/
  refused_iff : a = .refused ↔ r.txn ∈ l.aborted
  /-- The requester gets the lock, or keeps the stronger one. -/
  granted : a = .granted → ∀ q, m.heldMode? r.txn q =
    if q = r.page then
      some (if l.heldMode? r.txn r.page = some .exclusive then .exclusive else r.mode)
    else l.heldMode? r.txn q
  /-- Without a grant, nothing that is held changes. -/
  ungranted : a ≠ .granted → ∀ u, m.holdings.get? u = l.holdings.get? u

namespace Looked

variable {r : Request} {a : Answer} {m : LockTable}

/-- A look that grants nothing. -/
theorem of_sameLocks (h : Consistent l) (hs : SameLocks l m) (hm : m.aborted = l.aborted)
    (ha : a ≠ .granted) (hr : a = .refused ↔ r.txn ∈ l.aborted) : Looked l r a m where
  consistent := hs.consistent h
  aborted_eq := hm
  others u _ := hs.holdings_eq u
  refused_iff := hr
  granted he := absurd he ha
  ungranted _ := hs.holdings_eq

/-- A look that grants the request. -/
theorem of_grant (h : Consistent l) {k : LockTable} (hs : SameLocks l k)
    (hk : k.aborted = l.aborted) (ha : k.admits r = true) (hr : r.txn ∉ l.aborted) :
    Looked l r .granted (k.grant r.txn r.page r.mode) where
  consistent := (hs.consistent h).grant ha
  aborted_eq := (aborted_grant _ _ _ _).trans hk
  others u hu := (get?_holdings_grant k hu _ _).trans (hs.holdings_eq u)
  refused_iff := ⟨by simp, fun hm => absurd hm hr⟩
  granted _ q := by
    rw [heldMode?_grant (hs.consistent h) ha, hs.heldMode?_eq, hs.heldMode?_eq]
    simp only [true_and]
  ungranted he := absurd rfl he

end Looked

/-- What the first look makes of a table. -/
theorem looked_ask (h : Consistent l) (r : Request) : Looked l r (l.ask r).1 (l.ask r).2 := by
  rw [ask]
  have he := sameLocks_enter l r.page
  split
  · rename_i ha
    exact .of_sameLocks h (.refl l) rfl (by simp) ⟨fun _ => ha, fun _ => rfl⟩
  · rename_i hr
    dsimp only
    split
    · rename_i ha
      exact .of_grant h he (aborted_enter _ _) ha hr
    · refine .of_sameLocks h (he.trans (sameLocks_startWaiting _ r)) ?_ (by simp)
        ⟨by simp, fun ha => absurd ha hr⟩
      rw [aborted_startWaiting, aborted_enter]

/-- What a later look makes of a table. -/
theorem looked_wake (h : Consistent l) (r : Request) : Looked l r (l.wake r).1 (l.wake r).2 := by
  rw [wake]
  have hs := sameLocks_stopWaiting l r
  split
  · rename_i ha
    exact .of_sameLocks h hs (aborted_stopWaiting _ _) (by simp)
      ⟨fun _ => ha, fun _ => rfl⟩
  · rename_i hr
    split
    · rename_i ha
      exact .of_grant h hs (aborted_stopWaiting _ _) ((admits_stopWaiting l r).trans ha) hr
    · exact .of_sameLocks h (.refl l) rfl (by simp)
        ⟨by simp, fun ha => absurd ha hr⟩

/-- A look changes no lock of others. -/
theorem Looked.heldMode?_of_ne {r : Request} {a : Answer} {m : LockTable} (h : Looked l r a m)
    {u : TxnId} (hu : u ≠ r.txn) (q : PageId) : m.heldMode? u q = l.heldMode? u q := by
  rw [heldMode?, heldMode?, h.others u hu]

/-- An exclusive lock outlives every look. -/
theorem Looked.heldMode?_exclusive {r : Request} {a : Answer} {m : LockTable}
    (h : Looked l r a m) {u : TxnId} {q : PageId} (hx : l.heldMode? u q = some .exclusive) :
    m.heldMode? u q = some .exclusive := by
  by_cases hu : u = r.txn
  · subst hu
    by_cases ha : a = .granted
    · rw [h.granted ha]
      split
      · rename_i he
        rw [← he, if_pos hx]
      · exact hx
    · rw [heldMode?, h.ungranted ha]
      exact hx
  · rw [h.heldMode?_of_ne hu, hx]

/-! ## Deadlocks

The last look cannot leave a request waiting.  If the page does not admit the request, all others
that hold locks become victims, wherever their locks are. -/

/-- The victims of a deadlock are the others that have locks and are no victims yet. -/
theorem mem_victimsOf {t u : TxnId} :
    u ∈ l.victimsOf t ↔ u ≠ t ∧ u ∉ l.aborted ∧ l.holdings.get? u ≠ none := by
  rw [victimsOf, List.mem_filter, ne_eq (l.holdings.get? u), Assoc.get?_eq_none_iff]
  simp only [isAborted, ne_eq, Bool.and_eq_true, decide_eq_true_eq, Bool.not_eq_true',
    decide_eq_false_iff_not, Decidable.not_not]
  exact ⟨fun h => ⟨h.2.1, h.2.2, h.1⟩, fun h => ⟨h.2.2, h.1, h.2.1⟩⟩

/-- A transaction has an entry if it holds a page. -/
theorem Consistent.get?_ne_none_iff (h : Consistent l) {u : TxnId} :
    l.holdings.get? u ≠ none ↔ ∃ p, l.holds u p = true := by
  simp only [holds_iff, mem_pagesHeld, held]
  constructor
  · intro hn
    obtain ⟨held, hg⟩ := Option.ne_none_iff_exists'.1 hn
    rw [hg]
    exact Holdings.isEmpty_eq_false_iff.1 (h.entry u held hg)
  · rintro ⟨p, hp⟩ hn
    rw [hn] at hp
    exact hp.elim (Distinct.not_mem_empty p) (Distinct.not_mem_empty p)

/-- A transaction without locks has none to give back. -/
theorem Consistent.get?_release_eq_none (h : Consistent l) {t u : TxnId} {p : PageId}
    {m : LockTable} (hm : l.release t p = .ok m) (hn : l.holdings.get? u = none) :
    m.holdings.get? u = none := by
  refine Decidable.byContradiction fun hne => ?_
  obtain ⟨q, hq⟩ := (h.release hm).get?_ne_none_iff.1 hne
  rw [holds, heldMode?_release hm, heldMode?, hn] at hq
  split at hq <;> cases hq

/-- The same, told by the pages that are held. -/
theorem Consistent.mem_victimsOf_iff (h : Consistent l) {t u : TxnId} :
    u ∈ l.victimsOf t ↔ u ≠ t ∧ u ∉ l.aborted ∧ ∃ p, l.holds u p = true := by
  rw [mem_victimsOf, h.get?_ne_none_iff]

theorem mem_foldl_insert {us : List TxnId} {d : Distinct TxnId} {u : TxnId} :
    u ∈ us.foldl Distinct.insert d ↔ u ∈ d ∨ u ∈ us := by
  induction us generalizing d with
  | nil => simp
  | cons v us ih =>
    rw [List.foldl_cons, ih, Distinct.mem_insert, List.mem_cons, or_comm (a := u = v), or_assoc]

/-- What a look at the request `r` makes of a table when it declares a deadlock: the others that
hold locks are marked. -/
structure Deadlocked (l : LockTable) (r : Request) (m : LockTable) : Prop where
  same : SameLocks l m
  active : r.txn ∉ l.aborted
  mem_aborted : ∀ u, u ∈ m.aborted ↔ u ∈ l.aborted ∨ u ∈ l.victimsOf r.txn

theorem holdings_stopWaiting (l : LockTable) (r : Request) :
    (l.stopWaiting r).holdings = l.holdings := by
  rw [stopWaiting]
  split
  · dsimp only
    split <;> rfl
  · rfl

/-- Whether the request still waits is no matter of its victims. -/
theorem victimsOf_stopWaiting (l : LockTable) (r : Request) (t : TxnId) :
    (l.stopWaiting r).victimsOf t = l.victimsOf t := by
  simp only [victimsOf, isAborted, holdings_stopWaiting, aborted_stopWaiting]

/-- The last look grants the request, refuses it, or declares a deadlock. -/
theorem expire_cases (h : Consistent l) (r : Request) :
    (∃ m, l.expire r = (.refused, m) ∧ Looked l r .refused m) ∨
    (∃ m, l.expire r = (.granted, m) ∧ Looked l r .granted m) ∨
    ∃ m, l.expire r = (.deadlock (l.victimsOf r.txn), m) ∧ Deadlocked l r m := by
  rw [expire]
  have hs := sameLocks_stopWaiting l r
  split
  · rename_i ha
    exact Or.inl ⟨_, rfl, .of_sameLocks h hs (aborted_stopWaiting _ _)
      (by simp)
      ⟨fun _ => ha, fun _ => rfl⟩⟩
  · rename_i hr
    split
    · rename_i ha
      exact Or.inr (Or.inl ⟨_, rfl,
        .of_grant h hs (aborted_stopWaiting _ _) ((admits_stopWaiting l r).trans ha) hr⟩)
    · dsimp only
      rw [victimsOf_stopWaiting]
      refine Or.inr (Or.inr ⟨_, rfl, ?_, hr, fun u => ?_⟩)
      · exact (hs.trans (sameLocks_mark _ _)).trans (sameLocks_signal _)
      · dsimp only [signal]
        rw [mem_foldl_insert, aborted_stopWaiting]

end LockTable
end TableStore
