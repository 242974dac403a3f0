import TableStore.Pool.Call

/-!
# Scans

A scan yields the rows of a table in the order of pages and slots, reading each page under a shared
lock when it comes to it.  How many pages there are is settled when the scan begins.

## What is here

* `Scan` — the pages that are still to be visited, and the rows of the present page that are still to
  be yielded.
* `Scan.step` — what a scan does next, which may be to fetch a page.  `Scan.loaded` and
  `Scan.failed` say how it goes on when the page has come or has been refused: a refusal ends the
  scan.
* `Scan.rewind` — starts again from the first page.
* `Store.next` — the next row of a scan in a store where nobody else runs.
-/

set_option autoImplicit false
namespace TableStore

/-- A scan of a table. -/
structure Scan where
  file : TableFile
  txn : TxnId
  /-- The number of pages when the scan began. -/
  pages : Nat
  /-- The number of the page to be visited next. -/
  next : Nat := 0
  /-- The rows of the present page that are still to be yielded. -/
  rest : List Row := []
  deriving DecidableEq

/-- What a scan does next. -/
inductive ScanStep where
  | yield (row : Row) (scan : Scan)
  | fetch (page : PageId)
  | finish
  deriving DecidableEq

namespace Scan

/-- What a scan does next: rows that are at hand come first, then the next page. -/
def step (scan : Scan) : ScanStep :=
  match scan.rest with
  | row :: rest => .yield row { scan with rest }
  | [] => if scan.next < scan.pages then .fetch (scan.file.page scan.next) else .finish

/-- The call that fetches a page for a scan. -/
def call (page : PageId) : Call := .fetch page .readOnly

/-- The scan after the page it asked for has come. -/
def loaded (scan : Scan) (page : Page) : Scan :=
  { scan with next := scan.next + 1, rest := page.rows }

/-- The scan after the page it asked for has been refused: it is at its end. -/
def failed (scan : Scan) : Scan := { scan with next := scan.pages }

/-- The scan from the first page again. -/
def rewind (scan : Scan) : Scan := { scan with next := 0, rest := [] }

theorem next_lt_pages_of_step {scan : Scan} {p : PageId} (h : scan.step = .fetch p) :
    scan.next < scan.pages := by
  unfold step at h
  split at h
  · cases h
  · split at h
    · assumption
    · cases h

end Scan

namespace Store

/-- Begins a scan of a file. -/
def scan (s : Store) (t : TxnId) (file : TableFile) : Scan :=
  { file, txn := t, pages := s.pageCount file }

/-- The next row of a scan, or the refusal that ends it, in a store where nobody else runs; nothing
at the end. -/
def next (s : Store) (scan : Scan) : Option (Option (Except Error Row) × Scan × Store) :=
  match _h : scan.step with
  | .yield row scan => some (some (.ok row), scan, s)
  | .finish => some (none, scan, s)
  | .fetch p =>
    match s.perform scan.txn (Scan.call p) with
    | none => none
    | some (reply, s) =>
      match reply.result with
      | .error e => some (some (.error e), scan.failed, s)
      | .ok page => s.next (scan.loaded page)
  termination_by scan.pages - scan.next
  decreasing_by
    have := Scan.next_lt_pages_of_step _h
    simp only [Scan.loaded]
    omega

end Store
end TableStore
