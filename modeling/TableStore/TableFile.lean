import TableStore.Disk.Basic
import TableStore.Page.Codec

/-!
# Table files

The file of a table is an array of pages: page `n` lies at offset `n` times the page size.  There
is no header, so the number of pages is the length of the file divided by the page size; what
remains after the last whole page belongs to no page.

Pages are counted with 32 bits.  In a file of `pageLimit` pages or more the count has come round,
and a page that is to be added lands on one that is there.

## What is here

* `TableFile` — an open file with the schema of its rows.  The identity of the table is computed
  from the canonical path.
* `TableFile.openExisting`, `TableFile.create`, `TableFile.openOrCreate` — opening.
* `TableFile.wholePages`, `TableFile.pageCount` — the pages of a file, and their count.
* `TableFile.readPage`, `TableFile.writePage`, `TableFile.appendPage` — the array.  Only pages that
  are counted can be read and written.
* `TableFile.growPast` — pages are added until the count is past a number.
-/

set_option autoImplicit false
namespace TableStore

/-- An open file of a table. -/
structure TableFile where
  path : Path
  schema : Schema
  id : TableId
  id_eq : id = TableId.ofPath path
  deriving DecidableEq

namespace TableFile

/-- The file at a canonical path. -/
def ofPath (path : Path) (schema : Schema) : TableFile :=
  { path, schema, id := TableId.ofPath path, id_eq := rfl }

/-! ## Opening -/

/-- Opens an existing file. -/
def openExisting (d : Disk) (b : Bytes) (schema : Schema) : Except Error TableFile :=
  match d.openFile b with
  | .error e => .error (.io e)
  | .ok path => .ok (ofPath path schema)

/-- Makes a new, empty file. -/
def create (d : Disk) (b : Bytes) (schema : Schema) : Except Error (TableFile × Disk) :=
  match d.createFile b with
  | .error e => .error (.io e)
  | .ok (path, d) => .ok (ofPath path schema, d)

/-- Opens a file if something can be reached by the path, else makes it. -/
def openOrCreate (d : Disk) (b : Bytes) (schema : Schema) : Except Error (TableFile × Disk) :=
  match d.reach b with
  | .ok _ =>
    match openExisting d b schema with
    | .error e => .error e
    | .ok file => .ok (file, d)
  | .error _ => create d b schema

/-! ## The pages of a file

Everything that is done with a page goes by the count: which pages there are to read and to write,
and where the next one is added. -/

/-- The numbers that a count of pages can take. -/
def pageLimit : Nat := UInt32.size

/-- The number of whole pages. -/
def wholePages (f : TableFile) (d : Disk) (size : PageSize) : Nat :=
  (d.content f.path).length / size.bytes

/-- The number of pages as it is counted. -/
def pageCount (f : TableFile) (d : Disk) (size : PageSize) : Nat :=
  f.wholePages d size % pageLimit

/-- Whether a page is one of the file's. -/
def hasPage (f : TableFile) (d : Disk) (size : PageSize) (p : PageId) : Bool :=
  p.table = f.id && p.number < f.pageCount d size

/-- The identity of the page with a number. -/
def page (f : TableFile) (n : Nat) : PageId := ⟨f.id, n⟩

/-- Reads a page. -/
def readPage (f : TableFile) (d : Disk) (size : PageSize) (p : PageId) : Except Error Page :=
  if f.hasPage d size p then
    Page.decode size p f.schema ((d.content f.path).slice (p.number * size.bytes) size.bytes)
  else .error (.pageNotFound p)

/-- Writes a page to its place. -/
def writePage (f : TableFile) (d : Disk) (size : PageSize) (p : Page) : Except Error Disk :=
  if f.hasPage d size p.id then .ok (d.writeAt f.path (p.id.number * size.bytes) p.encode)
  else .error (.pageNotFound p.id)

/-- Adds a page without rows after the pages that are counted. -/
def appendPage (f : TableFile) (d : Disk) (size : PageSize) : PageId × Disk :=
  let n := f.pageCount d size
  (f.page n, d.writeAt f.path (n * size.bytes) (Page.zeroed size))

/-- Adds pages, at most `k` of them, until the count is past the number `n`. -/
def growUpTo (f : TableFile) (size : PageSize) (n : Nat) : Nat → Disk → Disk
  | 0, d => d
  | k + 1, d =>
    let d := (f.appendPage d size).2
    if n < f.pageCount d size then d else growUpTo f size n k d

/-- Adds pages until the count is past the number `n`.  A count that is not past it after `n + 2`
pages has come round, and more pages make no difference any more. -/
def growPast (f : TableFile) (d : Disk) (size : PageSize) (n : Nat) : Disk :=
  f.growUpTo size n (n + 2) d

end TableFile
end TableStore
