import TableStore.Pool.Basic

/-!
# The end of a transaction

A commit writes the pages that the transaction has changed to their files and then gives back its
locks.  An abort drops them from the cache, along with the clean pages that the transaction had
locked, so that they will be read again.

## What is here

* `Store.flushPage`, `Store.flushTxn`, `Store.flushAll` — writing dirty pages.  A page that has been
  written is clean, and its before-image is what was written.
* `Store.commit`, `Store.abort` — the two ends of a transaction.
* `Store.rollBack` — what a deadlock does to a victim: its changes are dropped and its locks given
  back, but it stays a victim until it is aborted.
* `Store.releasePage`, `Store.discard` — giving back one lock, and dropping one page, by hand.
-/

set_option autoImplicit false
namespace TableStore
namespace Store

/-! ## Writing pages -/

/-- Writes a page to the file of its table. -/
def writePage (s : Store) (page : Page) : Except Error Store :=
  match s.catalog.file page.id.table with
  | .error e => .error e
  | .ok file =>
    match file.writePage s.disk s.pageSize page with
    | .error e => .error e
    | .ok disk => .ok { s with disk }

/-- Writes a page to its file if it is in the cache and dirty.  It stays in the cache, clean. -/
def flushPage (s : Store) (p : PageId) : Except Error Store :=
  match s.cache.pages.get? p with
  | none => .ok s
  | some page =>
    if !page.isDirty then .ok s
    else match s.writePage page with
      | .error e => .error e
      | .ok s =>
        let s := s.bump .writes
        .ok { s with cache :=
          { pages := s.cache.pages.insert p page.clean
            recency := s.cache.recency.setEvictable p true } }

/-- Writes pages until one cannot be written.  Those before it stay written. -/
def flushPages (s : Store) : List PageId → Except Error Unit × Store
  | [] => (.ok (), s)
  | p :: ps =>
    match s.flushPage p with
    | .error e => (.error e, s)
    | .ok s => s.flushPages ps

/-- Writes the pages that a transaction has changed, and tells how many. -/
def flushTxn (s : Store) (t : TxnId) : Except Error Nat × Store :=
  let dirty := s.cache.dirtyPages t
  let (result, s) := s.flushPages dirty
  (result.map fun _ => dirty.length, s)

/-- Writes every dirty page. -/
def flushAll (s : Store) : Except Error Unit × Store := s.flushPages s.cache.pages.keys

/-! ## Commit and abort -/

/-- Commits a transaction.  If a page cannot be written, the transaction keeps its locks. -/
def commit (s : Store) (t : TxnId) : Except Error Unit × Store :=
  if s.locks.isAborted t then (.error (.aborted t), s)
  else match s.flushTxn t with
    | (.error e, s) => (.error e, s)
    | (.ok _, s) => (.ok (), { s with locks := s.locks.complete t })

/-- Aborts a transaction.  It counts as an abort if the transaction was a victim or held a lock. -/
def abort (s : Store) (t : TxnId) : Store :=
  let touched := s.locks.pagesHeld t
  let doomed := s.cache.dirtyPages t ++ touched.filter s.cache.isClean
  let counted := s.locks.isAborted t || !touched.isEmpty
  let s := { s with cache := s.cache.dropAll doomed, locks := s.locks.complete t }
  if counted then s.bump .aborts else s

/-- Drops the changes of a victim and gives back its locks. -/
def rollBack (s : Store) (t : TxnId) : Store :=
  { s with
    cache := s.cache.dropAll (s.cache.dirtyPages t)
    locks := s.locks.releaseAll t }

/-! ## By hand -/

/-- Gives back the lock of a transaction on a page before the transaction ends. -/
def releasePage (s : Store) (t : TxnId) (p : PageId) : Except Error Unit × Store :=
  match s.locks.release t p with
  | .error e => (.error e, s)
  | .ok locks => (.ok (), { s with locks })

/-- Drops a page from the cache without writing it. -/
def discard (s : Store) (p : PageId) : Store := { s with cache := s.cache.drop p }

end Store
end TableStore
