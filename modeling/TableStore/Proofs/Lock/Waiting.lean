import TableStore.Proofs.Lock.Held

/-!
# Waiting for locks

A page counts the requests for an exclusive lock that wait for it, and keeps new readers out as long
as there are any.  The count is kept in one place and given back in three: when a waiting request is
granted, when it is refused, and when it is given up.

## What is here

* `LockTable.waiting?`, `LockTable.waitingAt` — the count of a page, and what each operation does to
  it.  `Request.weight` is the part that a waiting request has in it.
* `LockTable.Allows` — a request may be granted, told by the locks of all transactions and the
  number of requests that wait.  `Consistent.admits_iff` — the rule of the page says just that.
* `LockTable.Covered` — the requester holds the page already, in the mode that it asks for or in a
  stronger one; then it may always be granted.
* `LockTable.ask_of_admits`, `LockTable.wake_of_admits`, `LockTable.expire_of_admits`, … — what the
  looks at a request come to.
-/

set_option autoImplicit false
namespace TableStore

/-- The part that a waiting request has in the count of a page. -/
def Request.weight (r : Request) (p : PageId) : Nat :=
  if r.page = p ∧ r.mode = .exclusive then 1 else 0

namespace LockTable

variable {l m : LockTable} {r : Request} {t u : TxnId} {p q : PageId} {k j : PageLock} {n : Nat}

/-! ## The count of a page

Only the beginning and the end of a wait change a count.  All else that is done to the entry of a
page leaves it alone, and so does what is done to the entries of other pages. -/

/-- How many requests for an exclusive lock a page counts as waiting, if it was ever asked for. -/
def waiting? (l : LockTable) (p : PageId) : Option Nat := (l.pages.get? p).map PageLock.waiting

/-- The same number; a page that was never asked for counts none. -/
def waitingAt (l : LockTable) (p : PageId) : Nat := (l.waiting? p).getD 0

theorem waiting?_insert (l : LockTable) (p q : PageId) (k : PageLock) (m : Assoc TxnId Holdings) :
    waiting? { l with pages := l.pages.insert p k, holdings := m } q =
      if q = p then some k.waiting else l.waiting? q := by
  rw [waiting?, Assoc.get?_insert]
  split <;> rfl

/-- An entry may be replaced by one with the same count. -/
theorem waiting?_replace (hk : l.pages.get? p = some k) (hj : j.waiting = k.waiting) (q : PageId)
    (m : Assoc TxnId Holdings) :
    waiting? { l with pages := l.pages.insert p j, holdings := m } q = l.waiting? q := by
  rw [waiting?_insert]
  split
  · rename_i hq
    rw [hq, waiting?, hk, hj]
    rfl
  · rfl

@[simp] theorem waiting?_signal (l : LockTable) (p : PageId) :
    l.signal.waiting? p = l.waiting? p := rfl

@[simp] theorem waiting?_unmark (l : LockTable) (t : TxnId) (p : PageId) :
    (l.unmark t).waiting? p = l.waiting? p := rfl

theorem waiting?_enter (l : LockTable) (p q : PageId) :
    (l.enter p).waiting? q = if q = p then some (l.waitingAt p) else l.waiting? q := by
  rw [enter, waitingAt, waiting?.eq_def l p]
  split
  · rename_i hp
    obtain ⟨k, hk⟩ := Option.isSome_iff_exists.1 hp
    split
    · rename_i hq
      rw [waiting?, hq, hk]
      rfl
    · rfl
  · rename_i hp
    have hnone : l.pages.get? p = none := by simpa [Assoc.contains] using hp
    refine (waiting?_insert l p q {} l.holdings).trans ?_
    rw [hnone]
    rfl

@[simp] theorem waiting?_grant (l : LockTable) (t : TxnId) (p : PageId) (m : Mode) (q : PageId) :
    (l.grant t p m).waiting? q = l.waiting? q := by
  rw [grant]
  split
  · rfl
  · rename_i k hk
    cases m with
    | shared =>
      dsimp only
      split
      · rfl
      · exact waiting?_replace hk (by rfl) q _
    | exclusive => exact waiting?_replace hk (by rfl) q _

@[simp] theorem waiting?_dropHolder (l : LockTable) (t : TxnId) (p q : PageId) :
    (l.dropHolder t p).waiting? q = l.waiting? q := by
  rw [waiting?, waiting?, dropHolder, Assoc.get?_modify]
  split
  · cases l.pages.get? q with
    | none => rfl
    | some k => rfl
  · rfl

@[simp] theorem waiting?_dropHolding (l : LockTable) (t : TxnId) (p q : PageId) :
    (l.dropHolding t p).waiting? q = l.waiting? q := by
  rw [dropHolding]
  split
  · rfl
  · dsimp only
    split <;> rfl

@[simp] theorem waiting?_releaseAll (l : LockTable) (t : TxnId) (q : PageId) :
    (l.releaseAll t).waiting? q = l.waiting? q := by
  have hdrop : ∀ (ps : List PageId) (l : LockTable),
      (ps.foldl (fun l p => l.dropHolder t p) l).waiting? q = l.waiting? q := by
    intro ps
    induction ps with
    | nil => exact fun _ => rfl
    | cons p ps ih => exact fun l => (ih (l.dropHolder t p)).trans (waiting?_dropHolder l t p q)
  rw [releaseAll]
  split
  · rfl
  · rename_i held _
    exact hdrop held.pages { l with holdings := l.holdings.erase t }

@[simp] theorem waiting?_complete (l : LockTable) (t : TxnId) (q : PageId) :
    (l.complete t).waiting? q = l.waiting? q := waiting?_releaseAll l t q

theorem waiting?_release (h : l.release t p = .ok m) (q : PageId) :
    m.waiting? q = l.waiting? q := by
  rw [release] at h
  split at h
  · cases h
    rw [waiting?_signal, waiting?_dropHolding, waiting?_dropHolder]
  · cases h

/-- A request for an exclusive lock is counted when it begins to wait. -/
theorem waiting?_startWaiting (l : LockTable) (r : Request) (q : PageId) :
    (l.startWaiting r).waiting? q = (l.waiting? q).map (· + r.weight q) := by
  rw [startWaiting, Request.weight]
  cases hm : r.mode with
  | shared => simp
  | exclusive =>
    rw [waiting?, waiting?, Assoc.get?_modify]
    by_cases hq : q = r.page
    · rw [if_pos hq, if_pos ⟨hq.symm, rfl⟩, Option.map_map, Option.map_map]
      rfl
    · rw [if_neg hq, if_neg fun he => hq he.1.symm, Option.map_map]
      rfl

/-- It is not counted any more when it leaves, whichever way that is. -/
theorem waiting?_stopWaiting (l : LockTable) (r : Request) (q : PageId) :
    (l.stopWaiting r).waiting? q = (l.waiting? q).map (· - r.weight q) := by
  rw [stopWaiting, Request.weight]
  split
  · rename_i k hm hk
    have hcount : waiting? { l with
        pages := l.pages.insert r.page { k with waiting := k.waiting - 1 } } q =
        (l.waiting? q).map (· - if r.page = q ∧ r.mode = .exclusive then 1 else 0) := by
      refine (waiting?_insert l r.page q _ l.holdings).trans ?_
      by_cases hq : q = r.page
      · rw [if_pos hq, if_pos ⟨hq.symm, hm⟩, hq, waiting?, hk]
        rfl
      · rw [if_neg hq, if_neg fun he => hq he.1.symm]
        simp
    dsimp only
    split
    · exact hcount
    · exact hcount
  · rename_i hnone
    by_cases hq : r.page = q ∧ r.mode = .exclusive
    · cases hk : l.pages.get? r.page with
      | none => rw [waiting?, ← hq.1, hk]; rfl
      | some k => exact (hnone k hq.2 hk).elim
    · rw [if_neg hq]
      simp

/-! ## Who may be granted a lock -/

/-- A request may be granted on a page for which `n` requests for an exclusive lock wait: nobody else
has a lock that excludes it, and a newcomer does not overtake those who wait to write. -/
def Allows (l : LockTable) (r : Request) (n : Nat) : Prop :=
  match r.mode with
  | .exclusive => ∀ u, u ≠ r.txn → l.heldMode? u r.page = none
  | .shared => (∀ u, u ≠ r.txn → l.heldMode? u r.page ≠ some .exclusive) ∧
      (l.heldMode? r.txn r.page = none → n = 0)

theorem SameLocks.allows_iff (h : SameLocks l m) : m.Allows r n ↔ l.Allows r n := by
  simp only [Allows, h.heldMode?_eq]

/-- **A page admits just the requests that may be granted.** -/
theorem Consistent.admits_iff (h : Consistent l) (hn : l.waiting? r.page = some n) :
    l.admits r = true ↔ l.Allows r n := by
  obtain ⟨k, hk, rfl⟩ := Option.map_eq_some_iff.1 hn
  have hwriter : ∀ u, k.writer = some u ↔ l.heldMode? u r.page = some .exclusive := fun u => by
    rw [h.heldMode?_exclusive_iff, writer?_of_get? hk]
  have hreader : ∀ u, u ∈ k.readers ↔ l.heldMode? u r.page = some .shared := fun u => by
    rw [h.heldMode?_shared_iff, readers_of_get? hk]
  rw [admits, hk, Option.map_some, Option.getD_some, Allows, PageLock.admits.eq_def]
  cases hw : k.writer with
  | some w =>
    have hx := (hwriter w).1 hw
    dsimp only
    rw [decide_eq_true_eq]
    cases r.mode with
    | exclusive =>
      constructor
      · rintro rfl u hu
        cases hm : l.heldMode? u r.page with
        | none => rfl
        | some m => exact absurd (h.eq_of_exclusive hx hm) hu
      · intro hall
        refine Decidable.byContradiction fun hne => ?_
        rw [hall w hne] at hx
        cases hx
    | shared =>
      constructor
      · rintro rfl
        exact ⟨fun u hu hxu => hu (h.eq_of_exclusive hx hxu),
          fun hnone => by rw [hnone] at hx; cases hx⟩
      · rintro ⟨hall, -⟩
        exact Decidable.byContradiction fun hne => hall w hne hx
  | none =>
    have hnox : ∀ u, l.heldMode? u r.page ≠ some .exclusive := fun u hx => by
      rw [← hwriter, hw] at hx
      cases hx
    -- without a writer, whoever holds the page is one of its readers
    have hnone : ∀ u, l.heldMode? u r.page = none ↔ u ∉ k.readers := fun u => by
      rw [hreader]
      cases hm : l.heldMode? u r.page with
      | none => simp
      | some m =>
        cases m with
        | shared => simp
        | exclusive => exact absurd hm (hnox u)
    cases r.mode with
    | exclusive =>
      dsimp only
      rw [List.all_eq_true]
      simp only [hnone, decide_eq_true_eq, Distinct.mem_toList]
      exact ⟨fun hall u hu hmem => hu (hall u hmem),
        fun hall u hmem => Decidable.byContradiction fun hu => hall u hu hmem⟩
    | shared =>
      dsimp only
      rw [Bool.or_eq_true, decide_eq_true_eq, decide_eq_true_eq, hnone,
        ← Decidable.or_iff_not_imp_left]
      exact ⟨fun hor => ⟨fun u _ => hnox u, hor⟩, And.right⟩

/-- The requester holds the page in the mode that it asks for, or exclusively. -/
def Covered (l : LockTable) (r : Request) : Prop :=
  l.heldMode? r.txn r.page = some r.mode ∨ l.heldMode? r.txn r.page = some .exclusive

theorem Covered.congr (hc : l.Covered r)
    (h : m.heldMode? r.txn r.page = l.heldMode? r.txn r.page) : m.Covered r := by
  rw [Covered, h]
  exact hc

/-- A look takes no lock from the requester, and weakens none. -/
theorem Looked.covered {a : Answer} (h : Looked l r a m) (ht : r.txn = t) {mode : Mode}
    (hc : l.Covered ⟨t, p, mode⟩) : m.Covered ⟨t, p, mode⟩ := by
  subst ht
  by_cases ha : a = .granted
  · rw [Covered, h.granted ha]
    dsimp only
    split
    · rename_i hp
      subst hp
      by_cases hx : l.heldMode? r.txn r.page = some .exclusive
      · exact Or.inr (by rw [if_pos hx])
      · -- what is not held exclusively is held shared, and any lock is as good as that
        obtain rfl : mode = .shared := by
          cases mode with
          | shared => rfl
          | exclusive => exact absurd (hc.elim id id) hx
        rw [if_neg hx]
        cases r.mode with
        | shared => exact Or.inl rfl
        | exclusive => exact Or.inr rfl
    · exact hc
  · rw [Covered, heldMode?, h.ungranted ha]
    exact hc

/-- Whoever holds the page already may be granted it again. -/
theorem Consistent.allows_of_covered (h : Consistent l) (hc : l.Covered r) (n : Nat) :
    l.Allows r n := by
  have hother : ∀ u m, u ≠ r.txn → l.heldMode? u r.page = some m →
      m = .shared ∧ r.mode = .shared := fun u m hu hm => by
    rcases hc with hc | hx
    · exact h.shared_of_two hu hm hc
    · exact absurd (h.eq_of_exclusive hx hm) hu
  rw [Allows]
  cases hm : r.mode with
  | exclusive =>
    intro u hu
    cases hheld : l.heldMode? u r.page with
    | none => rfl
    | some m =>
      have := (hother u m hu hheld).2
      rw [hm] at this
      cases this
  | shared =>
    refine ⟨fun u hu hx => ?_, fun hnone => ?_⟩
    · cases (hother u _ hu hx).1
    · rw [Covered, hnone] at hc
      rcases hc with hc | hc
      · cases hc
      · cases hc

theorem Consistent.waiting?_of_covered (h : Consistent l) (hc : l.Covered r) :
    ∃ n, l.waiting? r.page = some n := by
  have hholds : l.holds r.txn r.page = true := by
    rcases hc with hc | hc
    · rw [holds, hc, Option.isSome_some]
    · rw [holds, hc, Option.isSome_some]
  obtain ⟨k, hk⟩ := h.get?_of_holds hholds
  exact ⟨k.waiting, by rw [waiting?, hk, Option.map_some]⟩

theorem Consistent.admits_of_covered (h : Consistent l) (hc : l.Covered r) :
    l.admits r = true := by
  obtain ⟨n, hn⟩ := h.waiting?_of_covered hc
  exact (h.admits_iff hn).2 (h.allows_of_covered hc n)

/-- A page that is asked for decides as if it had always had an entry. -/
theorem Consistent.admits_enter_iff (h : Consistent l) :
    (l.enter r.page).admits r = true ↔ l.Allows r (l.waitingAt r.page) := by
  have hs := sameLocks_enter l r.page
  have hn : (l.enter r.page).waiting? r.page = some (l.waitingAt r.page) := by
    rw [waiting?_enter, if_pos rfl]
  rw [(hs.consistent h).admits_iff hn, hs.allows_iff]

/-! ## What a look comes to

A look depends on two things: whether the requester is a victim, which comes first, and whether the
page admits the request. -/

theorem ask_of_aborted (h : r.txn ∈ l.aborted) : l.ask r = (.refused, l) := by
  rw [ask, if_pos h]

theorem ask_of_admits (h : r.txn ∉ l.aborted) (ha : (l.enter r.page).admits r = true) :
    l.ask r = (.granted, (l.enter r.page).grant r.txn r.page r.mode) := by
  rw [ask, if_neg h]
  exact if_pos ha

theorem ask_of_not_admits (h : r.txn ∉ l.aborted) (ha : (l.enter r.page).admits r = false) :
    l.ask r = (.waiting, (l.enter r.page).startWaiting r) := by
  rw [ask, if_neg h]
  exact if_neg (Bool.eq_false_iff.1 ha)

theorem wake_of_aborted (h : r.txn ∈ l.aborted) : l.wake r = (.refused, l.stopWaiting r) := by
  rw [wake, if_pos h]

theorem wake_of_admits (h : r.txn ∉ l.aborted) (ha : l.admits r = true) :
    l.wake r = (.granted, (l.stopWaiting r).grant r.txn r.page r.mode) := by
  rw [wake, if_neg h, if_pos ha]

theorem wake_of_not_admits (h : r.txn ∉ l.aborted) (ha : l.admits r = false) :
    l.wake r = (.waiting, l) := by
  rw [wake, if_neg h, if_neg (Bool.eq_false_iff.1 ha)]

theorem expire_of_aborted (h : r.txn ∈ l.aborted) : l.expire r = (.refused, l.stopWaiting r) := by
  rw [expire, if_pos h]

theorem expire_of_admits (h : r.txn ∉ l.aborted) (ha : l.admits r = true) :
    l.expire r = (.granted, (l.stopWaiting r).grant r.txn r.page r.mode) := by
  rw [expire, if_neg h, if_pos ha]

/-- The table after a deadlock that `t` has declared. -/
def struck (l : LockTable) (t : TxnId) : LockTable :=
  { l with aborted := (l.victimsOf t).foldl Distinct.insert l.aborted }.signal

theorem expire_of_not_admits (h : r.txn ∉ l.aborted) (ha : l.admits r = false) :
    l.expire r = (.deadlock (l.victimsOf r.txn), (l.stopWaiting r).struck r.txn) := by
  rw [expire, if_neg h, if_neg (Bool.eq_false_iff.1 ha), struck]
  dsimp only
  rw [victimsOf_stopWaiting]

/-! A victim is granted nothing, whenever it looks. -/

theorem not_mem_aborted_of_ask (h : l.ask r = (.granted, m)) : r.txn ∉ m.aborted := by
  by_cases hr : r.txn ∈ l.aborted
  · rw [ask_of_aborted hr] at h
    cases h
  · cases ha : (l.enter r.page).admits r with
    | true =>
      rw [ask_of_admits hr ha] at h
      cases h
      simpa using hr
    | false =>
      rw [ask_of_not_admits hr ha] at h
      cases h

theorem not_mem_aborted_of_wake (h : l.wake r = (.granted, m)) : r.txn ∉ m.aborted := by
  by_cases hr : r.txn ∈ l.aborted
  · rw [wake_of_aborted hr] at h
    cases h
  · cases ha : l.admits r with
    | true =>
      rw [wake_of_admits hr ha] at h
      cases h
      simpa using hr
    | false =>
      rw [wake_of_not_admits hr ha] at h
      cases h

theorem not_mem_aborted_of_expire (h : l.expire r = (.granted, m)) : r.txn ∉ m.aborted := by
  by_cases hr : r.txn ∈ l.aborted
  · rw [expire_of_aborted hr] at h
    cases h
  · cases ha : l.admits r with
    | true =>
      rw [expire_of_admits hr ha] at h
      cases h
      simpa using hr
    | false =>
      rw [expire_of_not_admits hr ha] at h
      cases h

@[simp] theorem waiting?_struck (l : LockTable) (t : TxnId) (q : PageId) :
    (l.struck t).waiting? q = l.waiting? q := rfl

/-- A look that does not leave a request asleep ends its wait. -/
theorem waiting?_wake (h : (l.wake r).1 ≠ .waiting) (q : PageId) :
    (l.wake r).2.waiting? q = (l.waiting? q).map (· - r.weight q) := by
  rw [← waiting?_stopWaiting]
  by_cases hr : r.txn ∈ l.aborted
  · rw [wake_of_aborted hr]
  · cases ha : l.admits r with
    | true => rw [wake_of_admits hr ha, waiting?_grant]
    | false => exact absurd (congrArg Prod.fst (wake_of_not_admits hr ha)) h

theorem wake_of_waiting (h : (l.wake r).1 = .waiting) : (l.wake r).2 = l := by
  by_cases hr : r.txn ∈ l.aborted
  · rw [wake_of_aborted hr] at h
    cases h
  · cases ha : l.admits r with
    | true =>
      rw [wake_of_admits hr ha] at h
      cases h
    | false => rw [wake_of_not_admits hr ha]

/-- The last look always ends it. -/
theorem waiting?_expire (l : LockTable) (r : Request) (q : PageId) :
    (l.expire r).2.waiting? q = (l.waiting? q).map (· - r.weight q) := by
  rw [← waiting?_stopWaiting]
  by_cases hr : r.txn ∈ l.aborted
  · rw [expire_of_aborted hr]
  · cases ha : l.admits r with
    | true => rw [expire_of_admits hr ha, waiting?_grant]
    | false => rw [expire_of_not_admits hr ha, waiting?_struck]

end LockTable
end TableStore
