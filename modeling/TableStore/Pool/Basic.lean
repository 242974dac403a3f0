import TableStore.Catalog.Load
import TableStore.Lock.Request
import TableStore.Recency
import TableStore.Stats

/-!
# The store

A store is a file system with tables in it, and a pool that keeps some of their pages in memory for
transactions.  The pool holds a bounded number of pages.  A page that a transaction has changed
stays in the pool until the transaction ends; clean pages make room for others, the least recently
used one first.

## What is here

* `Cache` — the pages in memory and the order in which they were used.
* `Store` — the file system, the catalog, the cache, the locks and the counters.
* `Store.makeRoom` — drops a clean page if the cache is full.
* `Store.load` — the page for a transaction that has been granted its lock: from the cache, or from
  its file.
* `Store.install` — puts the changed copy of a page into the cache.
-/

set_option autoImplicit false
namespace TableStore

/-! ## Pages in memory -/

/-- The pages in memory, and how recently each was used. -/
structure Cache where
  pages : Assoc PageId Page := ∅
  recency : Recency := .empty
  deriving DecidableEq

namespace Cache

/-- The number of pages in memory. -/
def size (c : Cache) : Nat := c.pages.size

/-- Records the use of a page. -/
def touch (c : Cache) (p : PageId) : Cache := { c with recency := c.recency.touch p }

/-- Puts in a page, or replaces it, as the most recently used one.  A clean page may be evicted. -/
def put (c : Cache) (page : Page) (clean : Bool) : Cache :=
  { pages := c.pages.insert page.id page
    recency := (c.recency.touch page.id).setEvictable page.id clean }

/-- Drops a page. -/
def drop (c : Cache) (p : PageId) : Cache :=
  { pages := c.pages.erase p, recency := c.recency.remove p }

/-- Drops pages. -/
def dropAll (c : Cache) (ps : List PageId) : Cache := ps.foldl drop c

/-- Drops the least recently used clean page; there may be none. -/
def evict? (c : Cache) : Option Cache :=
  c.recency.evict?.map fun (p, recency) => { pages := c.pages.erase p, recency }

/-- The pages with uncommitted changes of a transaction. -/
def dirtyPages (c : Cache) (t : TxnId) : List PageId :=
  c.pages.keysWhere fun page => page.dirtier = some t

/-- Whether a page is in memory and holds no uncommitted changes. -/
def isClean (c : Cache) (p : PageId) : Bool :=
  ((c.pages.get? p).map fun page => !page.isDirty).getD false

end Cache

/-! ## The store -/

/-- A file system, the tables in it, and a pool of their pages. -/
structure Store where
  pageSize : PageSize
  disk : Disk
  catalog : Catalog
  cache : Cache
  locks : LockTable
  stats : Stats
  /-- The number of pages that the pool may hold. -/
  capacity : Nat
  capacity_pos : 0 < capacity
  /-- How long a request for a lock may wait, in milliseconds. -/
  timeout : Nat
  deriving DecidableEq

namespace Store

/-- A store with an empty pool.  There is no pool of no pages. -/
def ofConfig? (config : PoolConfig) (pageSize : PageSize) (disk : Disk) (catalog : Catalog) :
    Option Store :=
  if h : 0 < config.pages then
    some { pageSize, disk, catalog, cache := {}, locks := {}, stats := {}
           capacity := config.pages, capacity_pos := h, timeout := config.timeout }
  else none

/-- A store without files, with the settings that hold unless others are chosen. -/
def standard : Store :=
  { pageSize := .standard, disk := .empty, catalog := {}, cache := {}, locks := {}, stats := {}
    capacity := 50, capacity_pos := by decide, timeout := 150 }

instance : Inhabited Store := ⟨standard⟩

/-- Counts an event. -/
def bump (s : Store) (c : Counter) : Store := { s with stats := s.stats.bump c }

/-- Whether a transaction holds a lock on a page. -/
def holds (s : Store) (t : TxnId) (p : PageId) : Bool := s.locks.holds t p

/-- The number of whole pages of a file. -/
def wholePages (s : Store) (f : TableFile) : Nat := f.wholePages s.disk s.pageSize

/-- The number of pages of a file as it is counted. -/
def pageCount (s : Store) (f : TableFile) : Nat := f.pageCount s.disk s.pageSize

/-- Drops the least recently used clean page if the cache is full. -/
def makeRoom (s : Store) : Except Error Store :=
  if s.cache.size < s.capacity then .ok s
  else match s.cache.evict? with
    | none => .error (.poolFull s.capacity)
    | some cache => .ok ({ s with cache }.bump .evictions)

/-- Reads a page from the file of its table. -/
def readPage (s : Store) (p : PageId) : Except Error Page :=
  match s.catalog.file p.table with
  | .error e => .error e
  | .ok file => file.readPage s.disk s.pageSize p

/-- The page for a transaction that has been granted its lock.  Room is made before the page is
read, and stays made if reading fails. -/
def load (s : Store) (t : TxnId) (p : PageId) : Except Error Page × Store :=
  if s.locks.isAborted t then (.error (.aborted t), s)
  else match s.cache.pages.get? p with
    | some page => (.ok page, { s with cache := s.cache.touch p }.bump .hits)
    | none =>
      let s := s.bump .misses
      match s.makeRoom with
      | .error e => (.error e, s)
      | .ok s =>
        match s.readPage p with
        | .error e => (.error e, s)
        | .ok page =>
          let s := s.bump .reads
          (.ok page, { s with cache := s.cache.put page true })

/-- Puts the changed copy of a page into the cache, where it stays until the transaction ends. -/
def install (s : Store) (t : TxnId) (page : Page) : Except Error Page × Store :=
  if s.locks.isAborted t then (.error (.aborted t), s)
  else
    let page := { page with dirtier := some t }
    match if s.cache.pages.contains page.id then .ok s else s.makeRoom with
    | .error e => (.error e, s)
    | .ok s => (.ok page, { s with cache := s.cache.put page false })

end Store
end TableStore
