import TableStore.Proofs.Lock.Consistency

/-!
# Every order of requests

Transactions ask for locks, wait, are woken, run out of time, and give locks back, in any order.
This file describes all states that can come about in this way, and says what holds in each of them.

## What is here

* `LockState` — a lock table together with the requests that are blocked.
* `LockState.Step` — one critical section: a request is looked at for the first time, again, or for
  the last time, or locks are given back, or a mark is taken off.
* `LockState.Reachable` — the states after any number of steps, by any transactions on any pages.
* `LockState.reachable_agreement` — in every reachable state the two views of the table agree, all
  questions about locks are answered alike, and two transactions share a page only as readers.

A transaction may have several requests blocked at once, and the end of a transaction may be split
in two: other steps may come between the release of its locks and the removal of its mark.
-/

set_option autoImplicit false
namespace TableStore

/-- A lock table, and the requests that are blocked. -/
structure LockState where
  table : LockTable := {}
  blocked : List Request := []

namespace LockState

/-! ## Steps

A step is what a transaction does to the table without interruption.  A wait lets the others in, so
it ends one step, and the look that comes after it begins another. -/

/-- A request is made: it is granted or refused at once, or blocks. -/
def ask (s : LockState) (r : Request) : LockState :=
  { table := (s.table.ask r).2
    blocked := if (s.table.ask r).1 = .waiting then s.blocked ++ [r] else s.blocked }

/-- A blocked request wakes up: it is granted or refused, or sleeps again. -/
def wake (s : LockState) (r : Request) : LockState :=
  { table := (s.table.wake r).2
    blocked := if (s.table.wake r).1 = .waiting then s.blocked else s.blocked.erase r }

/-- The time of a blocked request is up. -/
def expire (s : LockState) (r : Request) : LockState :=
  { table := (s.table.expire r).2, blocked := s.blocked.erase r }

/-- One critical section. -/
inductive Step : LockState → LockState → Prop where
  | ask (s : LockState) (r : Request) : Step s (s.ask r)
  | wake {s : LockState} {r : Request} (h : r ∈ s.blocked) : Step s (s.wake r)
  | expire {s : LockState} {r : Request} (h : r ∈ s.blocked) : Step s (s.expire r)
  | release {s : LockState} {t : TxnId} {p : PageId} {table : LockTable}
      (h : s.table.release t p = .ok table) : Step s { s with table }
  | releaseAll (s : LockState) (t : TxnId) : Step s { s with table := s.table.releaseAll t }
  | unmark (s : LockState) (t : TxnId) : Step s { s with table := s.table.unmark t }
  | complete (s : LockState) (t : TxnId) : Step s { s with table := s.table.complete t }

/-- The states that come about from an empty table. -/
inductive Reachable : LockState → Prop where
  | start : Reachable {}
  | step {s s' : LockState} (h : Reachable s) (hs : Step s s') : Reachable s'

/-! ## What every step keeps -/

theorem Step.consistent {s s' : LockState} (hs : Step s s') (h : s.table.Consistent) :
    s'.table.Consistent := by
  cases hs with
  | ask r => exact h.ask r
  | wake _ => exact h.wake _
  | expire _ => exact h.expire _
  | release hr => exact h.release hr
  | releaseAll t => exact h.releaseAll t
  | unmark t => exact (LockTable.sameLocks_unmark _ t).consistent h
  | complete t => exact h.complete t

theorem Reachable.consistent {s : LockState} (h : Reachable s) : s.table.Consistent := by
  induction h with
  | start => exact .empty
  | step _ hs ih => exact hs.consistent ih

/-- **The lock table never contradicts itself.**  In every reachable state the readers and the
writer of a page are exactly the transactions with the page in their shared and exclusive sets, a
page is in one of the two sets only, a writer is alone, no entry is empty, and a page that is held
has an entry.  So all questions about locks agree, and a page held by two transactions is held
shared by both. -/
theorem reachable_agreement {s : LockState} (h : Reachable s) :
    s.table.Consistent ∧
    (∀ t p, p ∈ s.table.pagesHeld t → s.table.pages.contains p = true) ∧
    (∀ t p, s.table.heldMode? t p = some .exclusive ↔ s.table.writer? p = some t) ∧
    (∀ t p, s.table.heldMode? t p = some .shared ↔ t ∈ s.table.readers p) ∧
    (∀ t p, s.table.holds t p = true ↔ p ∈ s.table.pagesHeld t) ∧
    (∀ p, s.table.isFree p = true ↔ ∀ t, s.table.holds t p = false) ∧
    (∀ t u p m n, t ≠ u → s.table.heldMode? t p = some m → s.table.heldMode? u p = some n →
      m = .shared ∧ n = .shared) := by
  have hc := h.consistent
  refine ⟨hc, fun t p hp => ?_, fun t p => hc.heldMode?_exclusive_iff,
    fun t p => hc.heldMode?_shared_iff, fun t p => LockTable.holds_iff, fun p => hc.isFree_iff,
    fun t u p m n hne => hc.shared_of_two hne⟩
  obtain ⟨k, hk⟩ := hc.get?_of_holds (LockTable.holds_iff.2 hp)
  rw [Assoc.contains, hk, Option.isSome_some]

/-- Two readers of a page, of which the first has asked for an upgrade in vain until its time was
up, and was granted it when the other one had lost its locks. -/
def upgraded : LockState :=
  let r : TxnId → Mode → Request := fun t m => ⟨t, ⟨⟨7⟩, 0⟩, m⟩
  let s := ((({} : LockState).ask (r ⟨1⟩ .shared)).ask (r ⟨2⟩ .shared)).ask (r ⟨1⟩ .exclusive)
  let s := s.expire (r ⟨1⟩ .exclusive)
  ({ s with table := s.table.releaseAll ⟨2⟩ } : LockState).ask (r ⟨1⟩ .exclusive)

theorem reachable_agreement_upgraded :
    Reachable upgraded ∧ upgraded.table.writer? ⟨⟨7⟩, 0⟩ = some ⟨1⟩ ∧
      upgraded.table.isFree ⟨⟨7⟩, 0⟩ ≠ true := by
  have h : Reachable upgraded :=
    .step (.step (.step (.step (.step (.step .start (.ask _ _)) (.ask _ _)) (.ask _ _))
      (.expire (by decide))) (.releaseAll _ _)) (.ask _ _)
  obtain ⟨-, -, hw, -, -, hf, -⟩ := reachable_agreement h
  refine ⟨h, (hw ⟨1⟩ ⟨⟨7⟩, 0⟩).1 (by decide), fun hfree => ?_⟩
  have := (hf _).1 hfree ⟨1⟩
  exact absurd this (by decide)

end LockState
end TableStore
