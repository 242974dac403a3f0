import TableStore.Lock.Table
import TableStore.Schedule

/-!
# Requests for locks

A request is granted, refused or left waiting.  A waiting request sleeps until it is woken by a
signal or its time is up, and then looks again.

## What is here

* `LockTable.ask` — the first look at a request.
* `LockTable.wake` — another look after a signal; the request may have to go on sleeping.
* `LockTable.expire` — the last look, when the time is up.  A request that cannot be granted even
  then declares a deadlock: every other transaction that holds a lock becomes a victim.
* `LockTable.waiting` — waiting requests as tasks that sleep.

A waiting request for an exclusive lock is counted in its page from the moment it falls asleep
until it is granted, refused or given up, and readers are signalled when the last one leaves.  A
victim is refused at every look, so it leaves its wait at once and never gets a lock.
-/

set_option autoImplicit false
namespace TableStore

/-- A request of a transaction for a lock on a page. -/
structure Request where
  txn : TxnId
  page : PageId
  mode : Mode
  deriving DecidableEq, Repr

/-- What becomes of a request that is looked at. -/
inductive Answer where
  | granted
  /-- The transaction is a victim of a deadlock. -/
  | refused
  | waiting
  deriving DecidableEq, Repr

/-- What becomes of a request whose time is up. -/
inductive Verdict where
  | granted
  | refused
  /-- Nothing but the locks of others was in the way: the others are victims now. -/
  | deadlock (victims : List TxnId)
  deriving DecidableEq, Repr

namespace LockTable

/-- Whether the page of a request admits it. -/
def admits (l : LockTable) (r : Request) : Bool :=
  ((l.pages.get? r.page).map fun lock => lock.admits r.txn r.mode).getD false

/-- Counts a request for an exclusive lock as waiting. -/
def startWaiting (l : LockTable) (r : Request) : LockTable :=
  match r.mode with
  | .shared => l
  | .exclusive =>
    { l with pages := l.pages.modify r.page fun k => { k with waiting := k.waiting + 1 } }

/-- Ends the wait of a request.  When the last writer leaves, the readers it kept out are woken. -/
def stopWaiting (l : LockTable) (r : Request) : LockTable :=
  match r.mode, l.pages.get? r.page with
  | .exclusive, some lock =>
    let lock := { lock with waiting := lock.waiting - 1 }
    let l := { l with pages := l.pages.insert r.page lock }
    if lock.waiting = 0 then l.signal else l
  | _, _ => l

/-- The first look at a request. -/
def ask (l : LockTable) (r : Request) : Answer × LockTable :=
  if r.txn ∈ l.aborted then (.refused, l)
  else
    let l := l.enter r.page
    if l.admits r then (.granted, l.grant r.txn r.page r.mode)
    else (.waiting, l.startWaiting r)

/-- Another look at a waiting request. -/
def wake (l : LockTable) (r : Request) : Answer × LockTable :=
  if r.txn ∈ l.aborted then (.refused, l.stopWaiting r)
  else if l.admits r then (.granted, (l.stopWaiting r).grant r.txn r.page r.mode)
  else (.waiting, l)

/-- The transactions that a deadlock declared by `t` strikes: all others that hold a lock and are
not victims already. -/
def victimsOf (l : LockTable) (t : TxnId) : List TxnId :=
  l.holdings.keys.filter fun u => u ≠ t && !l.isAborted u

/-- The last look at a waiting request. -/
def expire (l : LockTable) (r : Request) : Verdict × LockTable :=
  if r.txn ∈ l.aborted then (.refused, l.stopWaiting r)
  else if l.admits r then (.granted, (l.stopWaiting r).grant r.txn r.page r.mode)
  else
    let l := l.stopWaiting r
    let victims := l.victimsOf r.txn
    (.deadlock victims, { l with aborted := victims.foldl Distinct.insert l.aborted }.signal)

/-- Waiting requests as tasks that sleep: a look that leaves the request waiting is no turn. -/
def waiting : Machine LockTable Request Verdict where
  wake l r :=
    match l.wake r with
    | (.granted, l) => (.finish .granted, l)
    | (.refused, l) => (.finish .refused, l)
    | (.waiting, l) => (.stay, l)
  expire l r :=
    let (verdict, l) := l.expire r
    (.finish verdict, l)

end LockTable
end TableStore
