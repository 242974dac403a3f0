import TableStore.Assoc
import TableStore.Distinct
import TableStore.Error
import TableStore.Lock.Mode

/-!
# The lock table

A page is held by any number of readers or by one writer.  The table knows the holders of each page
and the pages of each holder; the two views change together.

## What is here

* `PageLock` — the holders of a page, and how many requests for an exclusive lock wait for it.
  `PageLock.admits` is the rule by which a request is granted: a new reader stands back while a
  writer waits, but a transaction that holds the page already never does.
* `Holdings` — the pages that a transaction holds, by mode.
* `LockTable` — both, the transactions that were chosen as victims of a deadlock and have not been
  completed yet, and a count of the signals that woke all sleeping requests.
* `LockTable.grant`, `LockTable.release`, `LockTable.releaseAll`, `LockTable.complete` — taking
  locks and giving them back.  An entry of a page is never removed; a transaction that holds
  nothing has no entry.
-/

set_option autoImplicit false
namespace TableStore

/-- The lock of a page. -/
structure PageLock where
  readers : Distinct TxnId := ∅
  writer : Option TxnId := none
  /-- The number of requests for an exclusive lock that are waiting. -/
  waiting : Nat := 0
  deriving DecidableEq

namespace PageLock

/-- Whether a request can be granted.  Under a writer only that writer gets in.  A reader gets in
if it is one already or no writer waits; a writer gets in if nobody else reads. -/
def admits (l : PageLock) (t : TxnId) (m : Mode) : Bool :=
  match l.writer, m with
  | some w, _ => w = t
  | none, .shared => t ∈ l.readers || l.waiting = 0
  | none, .exclusive => l.readers.toList.all (· = t)

/-- Whether nobody holds the page. -/
def isFree (l : PageLock) : Bool := l.writer.isNone && l.readers.isEmpty

/-- The lock without the holder `t`. -/
def without (l : PageLock) (t : TxnId) : PageLock :=
  { l with
    readers := l.readers.erase t
    writer := if l.writer = some t then none else l.writer }

end PageLock

/-- The pages that a transaction holds.  A page is held in one mode only. -/
structure Holdings where
  shared : Distinct PageId := ∅
  exclusive : Distinct PageId := ∅
  deriving DecidableEq

namespace Holdings

/-- Whether nothing is held. -/
def isEmpty (h : Holdings) : Bool := h.shared.isEmpty && h.exclusive.isEmpty

/-- All pages held. -/
def pages (h : Holdings) : List PageId := h.shared.toList ++ h.exclusive.toList

/-- The mode in which a page is held. -/
def mode? (h : Holdings) (p : PageId) : Option Mode :=
  if p ∈ h.exclusive then some .exclusive
  else if p ∈ h.shared then some .shared
  else none

/-- The holdings without a page. -/
def without (h : Holdings) (p : PageId) : Holdings := ⟨h.shared.erase p, h.exclusive.erase p⟩

end Holdings

/-- The locks of all pages. -/
structure LockTable where
  /-- The lock of each page that was ever asked for. -/
  pages : Assoc PageId PageLock := ∅
  holdings : Assoc TxnId Holdings := ∅
  /-- The victims of deadlocks that have not been completed yet. -/
  aborted : Distinct TxnId := ∅
  /-- How often all sleeping requests have been woken. -/
  signals : Nat := 0
  deriving DecidableEq

namespace LockTable

/-! ## Looking -/

/-- The mode in which a transaction holds a page. -/
def heldMode? (l : LockTable) (t : TxnId) (p : PageId) : Option Mode :=
  (l.holdings.get? t).bind fun h => h.mode? p

/-- Whether a transaction holds a page in any mode. -/
def holds (l : LockTable) (t : TxnId) (p : PageId) : Bool := (l.heldMode? t p).isSome

/-- The pages that a transaction holds. -/
def pagesHeld (l : LockTable) (t : TxnId) : List PageId :=
  ((l.holdings.get? t).map Holdings.pages).getD []

/-- Whether a transaction was chosen as a victim and has not been completed. -/
def isAborted (l : LockTable) (t : TxnId) : Bool := t ∈ l.aborted

/-- Whether nobody holds a page. -/
def isFree (l : LockTable) (p : PageId) : Bool := ((l.pages.get? p).map PageLock.isFree).getD true

/-- The number of pages that were ever asked for. -/
def size (l : LockTable) : Nat := l.pages.size

/-! ## Taking and giving back -/

/-- Wakes all sleeping requests. -/
def signal (l : LockTable) : LockTable := { l with signals := l.signals + 1 }

/-- Gives a page that was never asked for an entry. -/
def enter (l : LockTable) (p : PageId) : LockTable :=
  if l.pages.contains p then l else { l with pages := l.pages.insert p {} }

/-- Gives a transaction a lock that the page admits.  A writer has no use for a shared lock. -/
def grant (l : LockTable) (t : TxnId) (p : PageId) (m : Mode) : LockTable :=
  match l.pages.get? p with
  | none => l
  | some lock =>
    let held := (l.holdings.get? t).getD {}
    match m with
    | .shared =>
      if lock.writer = some t then { l with holdings := l.holdings.insert t held }
      else { l with
        pages := l.pages.insert p { lock with readers := lock.readers.insert t }
        holdings := l.holdings.insert t { held with shared := held.shared.insert p } }
    | .exclusive => { l with
        pages := l.pages.insert p
          { lock with readers := lock.readers.erase t, writer := some t }
        holdings := l.holdings.insert t
          { shared := held.shared.erase p, exclusive := held.exclusive.insert p } }

/-- Takes a page from the holdings of a transaction, and the transaction from the table if nothing
is left. -/
def dropHolding (l : LockTable) (t : TxnId) (p : PageId) : LockTable :=
  match l.holdings.get? t with
  | none => l
  | some held =>
    let rest := held.without p
    if rest.isEmpty then { l with holdings := l.holdings.erase t }
    else { l with holdings := l.holdings.insert t rest }

/-- Takes a transaction from the holders of a page. -/
def dropHolder (l : LockTable) (t : TxnId) (p : PageId) : LockTable :=
  { l with pages := l.pages.modify p fun lock => lock.without t }

/-- Gives back whatever lock a transaction holds on a page. -/
def release (l : LockTable) (t : TxnId) (p : PageId) : Except Error LockTable :=
  if l.pages.contains p then .ok ((l.dropHolder t p).dropHolding t p).signal
  else .error (.neverLocked p)

/-- Gives back every lock of a transaction.  A victim stays a victim. -/
def releaseAll (l : LockTable) (t : TxnId) : LockTable :=
  match l.holdings.get? t with
  | none => l
  | some held =>
    let l := { l with holdings := l.holdings.erase t }
    (held.pages.foldl (fun l p => l.dropHolder t p) l).signal

/-- Forgets that a transaction was chosen as a victim. -/
def unmark (l : LockTable) (t : TxnId) : LockTable := { l with aborted := l.aborted.erase t }

/-- Ends a transaction: it holds nothing, and is no victim. -/
def complete (l : LockTable) (t : TxnId) : LockTable := (l.releaseAll t).unmark t

end LockTable
end TableStore
