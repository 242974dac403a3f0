import TableStore.Catalog.Basic
import TableStore.Catalog.SchemaLine

/-!
# Loading a schema file

Every line of a schema file that is not blank describes a table.  The table `name` is stored in
`name.dat` beside the schema file, which is made if it is missing.

## What is here

* `Catalog.loadLines` — registers the tables of lines, up to the first line that is at fault or
  whose file cannot be opened.
* `Catalog.loadSchema` — the same for a file.
-/

set_option autoImplicit false
namespace TableStore

namespace Catalog

/-- The name of the file that stores a table, beside the schema file. -/
def dataFile (directory : Path) (name : String) : Bytes :=
  directory.join (Utf8.encode (name ++ ".dat"))

/-- The lines of a schema file that describe tables, without outer white space. -/
def entryLines (text : String) : List (List Char) :=
  ((Text.lines text.toList).map Text.trim).filter (· ≠ [])

/-- Registers the table that a line describes. -/
def loadLine (c : Catalog) (d : Disk) (directory : Path) (line : List Char) :
    Except Error (TableId × Catalog × Disk) :=
  match TableEntry.parse line with
  | .error fault => .error (.malformedLine fault (String.ofList line))
  | .ok entry =>
    match TableFile.openOrCreate d (dataFile directory entry.name) entry.schema with
    | .error e => .error e
    | .ok (file, d) => .ok (file.id, c.add file entry.name entry.key, d)

/-- Registers the tables of lines until one cannot be registered. -/
def loadLines (c : Catalog) (d : Disk) (directory : Path) :
    List (List Char) → Except Error (List TableId) × Catalog × Disk
  | [] => (.ok [], c, d)
  | line :: rest =>
    match c.loadLine d directory line with
    | .error e => (.error e, c, d)
    | .ok (id, c, d) =>
      let (ids, c, d) := c.loadLines d directory rest
      (ids.map (id :: ·), c, d)

/-- Registers the tables that a schema file describes. -/
def loadSchema (c : Catalog) (d : Disk) (b : Bytes) :
    Except Error (List TableId) × Catalog × Disk :=
  match d.locate b with
  | .error e => (.error (.io e), c, d)
  | .ok path =>
    match d.readText b with
    | .error e => (.error (.io e), c, d)
    | .ok text => c.loadLines d path.parent (entryLines text)

end Catalog
end TableStore
