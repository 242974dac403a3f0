import TableStore.Pool.Complete

/-!
# Calls

A transaction reads a page, inserts a row into a table or removes one.  Each of these calls asks for
locks and may have to wait for them, so a call is carried out in pieces: between two pieces it is
plain data, a `Pending`, and other transactions may run.

## What is here

* `Call`, `Reply` — what is asked for, and what is answered.
* `Pending` — a call that needs a lock, with what is to be done once the lock is granted.
* `Store.start` — the part of a call before its first request for a lock.
* `Store.ask`, `Store.wake?`, `Store.expire` — the looks at a request, each followed by what the call
  does when the lock is granted.
* `Store.begin`, `Store.proceed` — carry a call on until it is answered or has to wait.
* `Store.perform` — carries a call to its end in a store where nobody else runs: a request that has
  to wait runs out of time at once.

A row is inserted into the first page with a free slot.  Pages are visited in the order of their
numbers under exclusive locks; a full page is given back at once unless its lock was held before.
If all pages are full, an empty one is appended.  A file of more pages than can be counted never
gets one more, and the call never comes to its end.
-/

set_option autoImplicit false
namespace TableStore

/-- What a transaction asks for. -/
inductive Call where
  /-- A page. -/
  | fetch (page : PageId) (access : Access)
  /-- To put a row into a table. -/
  | insert (table : TableId) (row : Row)
  /-- To take a row away from the place that its record id names. -/
  | remove (row : Row)
  /-- A copy of a page of the file with the row put into it; the pool keeps the page as it is. -/
  | insertCopy (file : TableFile) (row : Row)
  /-- A copy of a page of the file with the row taken away; the pool keeps the page as it is. -/
  | removeCopy (file : TableFile) (row : Row)
  deriving DecidableEq

/-- The answer to a call: the page that was read or changed, and the row with its new record id if
the call gave it one or took it away. -/
structure Reply where
  result : Except Error Page
  row : Option Row := none

/-- The search for a page with a free slot. -/
structure SlotSearch where
  file : TableFile
  row : Row
  /-- The page after the one that was asked for last. -/
  next : Nat
  /-- The number of pages when they were last counted. -/
  count : Nat
  /-- Whether the lock on the page that was asked for last was held before. -/
  held : Bool
  /-- Whether the changed page goes into the pool. -/
  keep : Bool
  deriving DecidableEq

/-- What is to be done with a page whose lock has been granted. -/
inductive Goal where
  | read
  | place (search : SlotSearch)
  /-- Takes a row away; the changed page goes into the pool if it is to be kept. -/
  | take (row : Row) (keep : Bool)
  deriving DecidableEq

/-- A call that needs a lock. -/
structure Pending where
  request : Request
  goal : Goal
  deriving DecidableEq

/-- How far a call has come. -/
inductive Progress where
  /-- It is answered. -/
  | done (reply : Reply)
  /-- It is about to ask for a lock. -/
  | asking (pending : Pending)
  /-- Its request waits. -/
  | waiting (pending : Pending)
  /-- It adds pages for ever: their count has come round, and never gets past the pages that it has
  visited. -/
  | endless

namespace Progress

/-- The call is refused. -/
def refuse (e : Error) : Progress := .done { result := .error e }

/-- Whether what the call does between two looks at its requests comes to an end. -/
def ends : Progress → Bool
  | .endless => false
  | _ => true

end Progress

namespace Store

/-! ## Beginning -/

/-- Asks for the next page in search of a free slot. -/
def tryNext (s : Store) (t : TxnId) (search : SlotSearch) : Progress :=
  let page := search.file.page search.next
  .asking
    { request := ⟨t, page, .exclusive⟩
      goal := .place { search with next := search.next + 1, held := s.holds t page } }

/-- Goes on in search of a free slot.  When all counted pages have been visited an empty one is
appended, even if others have appended some in the meantime, and the pages are counted again.  This
goes on until there is a page that has not been visited. -/
def seek (s : Store) (t : TxnId) (search : SlotSearch) : Progress × Store :=
  if search.next < search.count then (s.tryNext t search, s)
  else
    let s := { s with disk := search.file.growPast s.disk s.pageSize search.next }
    let count := s.pageCount search.file
    if search.next < count then (s.tryNext t { search with count }, s) else (.endless, s)

/-- Begins to put a row into a file. -/
def startInsert (s : Store) (t : TxnId) (file : TableFile) (row : Row) (keep : Bool) :
    Progress × Store :=
  if row.types ≠ file.schema.types then (.refuse .schemaMismatch, s)
  else s.seek t { file, row, next := 0, count := s.pageCount file, held := false, keep }

/-- Begins to take a row away from a file. -/
def startRemove (s : Store) (t : TxnId) (file : TableFile) (row : Row) (keep : Bool) :
    Progress × Store :=
  match row.rid with
  | none => (.refuse .noRecordId, s)
  | some rid =>
    if rid.page.table ≠ file.id then (.refuse (.notOnPage rid.page), s)
    else (.asking { request := ⟨t, rid.page, .exclusive⟩, goal := .take row keep }, s)

/-- The part of a call before its first request for a lock. -/
def start (s : Store) (t : TxnId) : Call → Progress × Store
  | .fetch page access => (.asking { request := ⟨t, page, access.mode⟩, goal := .read }, s)
  | .insert table row =>
    if s.locks.isAborted t then (.refuse (.aborted t), s)
    else match s.catalog.file table with
      | .error e => (.refuse e, s)
      | .ok file => s.startInsert t file row true
  | .remove row =>
    if s.locks.isAborted t then (.refuse (.aborted t), s)
    else match row.rid with
      | none => (.refuse .noRecordId, s)
      | some rid =>
        match s.catalog.file rid.page.table with
        | .error e => (.refuse e, s)
        | .ok file => s.startRemove t file row true
  | .insertCopy file row => s.startInsert t file row false
  | .removeCopy file row => s.startRemove t file row false

/-! ## With the lock -/

/-- Answers with the changed copy of a page, which is put into the pool if it is to be kept. -/
def finishEdit (s : Store) (t : TxnId) (keep : Bool) (edit : Except Error (Page × Row)) :
    Progress × Store :=
  match edit with
  | .error e => (.refuse e, s)
  | .ok (copy, row) =>
    if keep then
      let (result, s) := s.install t copy
      (.done { result, row := some row }, s)
    else (.done { result := .ok copy, row := some row }, s)

/-- Goes on from a page without a free slot.  Its lock is given back unless it was held before. -/
def skipFull (s : Store) (t : TxnId) (page : PageId) (search : SlotSearch) : Progress × Store :=
  if search.held then s.seek t search
  else match s.releasePage t page with
    | (.error e, s) => (.refuse e, s)
    | (.ok (), s) => s.seek t search

/-- What a call does once its lock has been granted. -/
def resume (s : Store) (p : Pending) : Progress × Store :=
  let t := p.request.txn
  match s.load t p.request.page with
  | (.error e, s) => (.refuse e, s)
  | (.ok page, s) =>
    match p.goal with
    | .read => (.done { result := .ok page }, s)
    | .take row keep => s.finishEdit t keep (page.remove row)
    | .place search =>
      if page.freeSlots = [] then s.skipFull t p.request.page search
      else s.finishEdit t search.keep (page.insert search.row)

/-! ## Asking and waiting -/

/-- What a call does after a look at its request. -/
def answer (s : Store) (p : Pending) : Answer → Progress × Store
  | .refused => (.refuse (.aborted p.request.txn), s)
  | .granted => s.resume p
  | .waiting => (.waiting p, s)

/-- The first look at the request of a call. -/
def ask (s : Store) (p : Pending) : Progress × Store :=
  let (a, locks) := s.locks.ask p.request
  { s with locks }.answer p a

/-- Another look at the waiting request of a call, unless it has to go on waiting. -/
def wake? (s : Store) (p : Pending) : Option (Progress × Store) :=
  match s.locks.wake p.request with
  | (.waiting, _) => none
  | (a, locks) => some ({ s with locks }.answer p a)

/-- The last look at the waiting request of a call.  If it declares a deadlock, the victims are
rolled back and the call asks again. -/
def expire (s : Store) (p : Pending) : Progress × Store :=
  match s.locks.expire p.request with
  | (.refused, locks) => { s with locks }.answer p .refused
  | (.granted, locks) => { s with locks }.answer p .granted
  | (.deadlock victims, locks) =>
    (.asking p, victims.foldl rollBack ({ s with locks }.bump .deadlocks))

/-! ## Carrying a call on -/

/-- Carries a call on, for at most `n` requests, until it is answered or has to wait. -/
def advance : Nat → Progress × Store → Progress × Store
  | 0, run => run
  | n + 1, (.asking p, s) => advance n (s.ask p)
  | _ + 1, run => run

/-- Carries a call to its answer, in at most `n` looks at its requests; a request that has to wait
runs out of time at once. -/
def finish : Nat → Progress × Store → Option (Reply × Store)
  | _, (.done reply, s) => some (reply, s)
  | _, (.endless, _) => none
  | 0, _ => none
  | n + 1, (.asking p, s) => finish n (s.ask p)
  | n + 1, (.waiting p, s) => finish n (s.expire p)

/-- Enough looks for any call.  A page is looked at no more than three times: when it is asked for,
when the time of the request is up, and when it is asked for again.  The pages that a call visits
are those of its file and, while the appended ones are in the cache from before, as many more. -/
def turns (s : Store) : Nat :=
  let pages := s.disk.files.values.foldl (fun n b => n + b.length / s.pageSize.bytes) 0
  3 * (pages + s.cache.size + 2)

/-- Carries a call on until it is answered or has to wait. -/
def proceed (s : Store) (progress : Progress) : Progress × Store := advance s.turns (progress, s)

/-- Begins a call, and carries it on until it is answered or has to wait. -/
def begin (s : Store) (t : TxnId) (call : Call) : Progress × Store :=
  let (progress, s) := s.start t call
  s.proceed progress

/-- Carries a call to its answer where nobody else runs.  There is none only if the call inserts
into a table whose pages have no slots, or into a file of more pages than can be counted. -/
def await (s : Store) (progress : Progress) : Option (Reply × Store) := finish s.turns (progress, s)

/-- Carries out a call where nobody else runs. -/
def perform (s : Store) (t : TxnId) (call : Call) : Option (Reply × Store) :=
  let (progress, s) := s.start t call
  s.await progress

end Store
end TableStore
