import TableStore.Id
import TableStore.Text.Quoted
import TableStore.Value

/-!
# What can go wrong

Every refusal names its cause.  `Error.message` is the one place where causes are put into words;
it writes the tables it mentions through a `TableLabel`.

## What is here

* `IoError` — refusals of the file system.
* `Corruption` — why bytes are no page.
* `LineFault` — why a line of a schema file describes no table.
* `Error` — all refusals, and `Error.message`.
-/

set_option autoImplicit false
namespace TableStore

/-- A refusal of the file system. -/
inductive IoError where
  | notFound
  | alreadyExists
  | notDirectory
  | isDirectory
  | nameTooLong
  /-- A name holds a zero byte. -/
  | nulInName
  /-- A file that should hold text holds bytes that are not valid UTF-8. -/
  | notUtf8
  deriving DecidableEq, Repr

/-- The refusal in words, with the number of those that have one. -/
def IoError.message : IoError → String
  | notFound => "No such file or directory (os error 2)"
  | alreadyExists => "File exists (os error 17)"
  | notDirectory => "Not a directory (os error 20)"
  | isDirectory => "Is a directory (os error 21)"
  | nameTooLong => "File name too long (os error 36)"
  | nulInName => "file name contained an unexpected NUL byte"
  | notUtf8 => "stream did not contain valid UTF-8"

/-- Why bytes are no page. -/
inductive Corruption where
  | wrongSize (expected actual : Nat)
  /-- A bit of the bitmap is set that stands for no slot. -/
  | strayBit (bit slots : Nat)
  /-- A used slot holds no row of the schema. -/
  | badSlot (slot : Nat) (fault : FieldFault)
  deriving DecidableEq, Repr

/-- The reason in words. -/
def Corruption.message : Corruption → String
  | wrongSize expected actual => s!"expected {expected} bytes, got {actual}"
  | strayBit bit slots => s!"bitmap bit {bit} set past {slots} slots"
  | badSlot slot fault => s!"slot {slot}: {fault.message}"

/-- Why a line describes no table. -/
inductive LineFault where
  /-- There is no opening parenthesis with a closing one after it. -/
  | shape
  /-- Nothing stands before the opening parenthesis. -/
  | noName
  /-- A column is not made of two or three words. -/
  | column
  /-- The third word of a column is not the mark of the primary key. -/
  | mark (word : String)
  /-- The second word of a column names no type. -/
  | type (word : String)
  deriving DecidableEq, Repr

/-- The fault in words. -/
def LineFault.message : LineFault → String
  | shape => "expected name (field type, ...)"
  | noName => "missing table name"
  | column => "expected field type"
  | mark word => "unknown annotation " ++ word
  | type word => "unknown type " ++ word

/-- A refusal. -/
inductive Error where
  | io (cause : IoError)
  /-- The page lies past the end of its file, or in another file. -/
  | pageNotFound (page : PageId)
  | corruptPage (page : PageId) (reason : Corruption)
  /-- The transaction was chosen as a victim of a deadlock and has not been aborted yet. -/
  | aborted (txn : TxnId)
  /-- A page has to be loaded, the cache is full, and every cached page is dirty. -/
  | poolFull (capacity : Nat)
  | pageFull (page : PageId)
  /-- The types of a row are not those of the table, or a new value has another type. -/
  | schemaMismatch
  | fieldCount (expected actual : Nat)
  /-- The record id of a row names another page. -/
  | notOnPage (page : PageId)
  | slotEmpty (page : PageId) (slot : Nat)
  /-- The row is not stored anywhere. -/
  | noRecordId
  /-- A lock is given back on a page that nobody ever asked for. -/
  | neverLocked (page : PageId)
  | unknownTable (table : TableId)
  | unknownName (name : String)
  | malformedLine (fault : LineFault) (line : String)
  deriving DecidableEq, Repr

/-- The refusal in words. -/
def Error.message (label : TableLabel) : Error → String
  | io cause => s!"I/O error: {cause.message}"
  | pageNotFound page => s!"{page.text label} not found"
  | corruptPage page reason => s!"corrupt {page.text label}: {reason.message}"
  | aborted txn => s!"{txn.text} aborted"
  | poolFull capacity => s!"buffer pool full: all {capacity} cached pages are dirty"
  | pageFull page => s!"{page.text label} is full"
  | schemaMismatch => "tuple descriptor mismatch"
  | fieldCount expected actual => s!"expected {expected} fields, got {actual}"
  | notOnPage page => s!"tuple is not stored on {page.text label}"
  | slotEmpty page slot => s!"slot {slot} on {page.text label} is already empty"
  | noRecordId => "tuple has no record id"
  | neverLocked page => s!"{page.text label} was never locked"
  | unknownTable table => s!"no table with id {table.text label}"
  | unknownName name => s!"no table named {Text.quoted name}"
  | malformedLine fault line => s!"invalid catalog entry: {fault.message}: {Text.quoted line}"

end TableStore
