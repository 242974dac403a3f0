import TableStore.Error
import TableStore.Schema
import TableStore.Text.Blank

/-!
# Lines of a schema file

A line describes a table: `name (field type [pk], ...)`.  The name is what stands before the first
opening parenthesis, without outer white space; the columns stand between it and the last closing
parenthesis, separated by commas.  A column is made of words: the name of the field, the name of its
type, and perhaps the mark `pk` of the primary key.

## What is here

* `TableEntry` — what a line describes.
* `TableEntry.parse` — the table that a line describes, or the fault of the first part that is at
  fault, from left to right.
-/

set_option autoImplicit false
namespace TableStore

/-- What a line of a schema file describes. -/
structure TableEntry where
  name : String
  schema : Schema
  /-- The name of the primary key; empty if there is none. -/
  key : String
  deriving DecidableEq

/-- A column with a name and a type, and whether it is marked as the primary key. -/
structure ColumnEntry where
  name : String
  type : FieldType
  marked : Bool
  deriving DecidableEq, Repr

namespace ColumnEntry

/-- The mark of the primary key. -/
def keyMark : List Char := ['p', 'k']

/-- A column whose type has a known name. -/
def ofWords (field type : List Char) (marked : Bool) : Except LineFault ColumnEntry :=
  match FieldType.ofName? (String.ofList type) with
  | none => .error (.type (String.ofList type))
  | some t => .ok ⟨String.ofList field, t, marked⟩

/-- The column in a part between commas. -/
def parse (part : List Char) : Except LineFault ColumnEntry :=
  match Text.words part with
  | [field, type] => ofWords field type false
  | [field, type, mark] =>
    if mark = keyMark then ofWords field type true
    else .error (.mark (String.ofList mark))
  | _ => .error .column

/-- The columns in parts between commas. -/
def parseAll : List (List Char) → Except LineFault (List ColumnEntry)
  | [] => .ok []
  | part :: parts =>
    match parse part with
    | .error fault => .error fault
    | .ok column =>
      match parseAll parts with
      | .error fault => .error fault
      | .ok columns => .ok (column :: columns)

/-- The column of the schema. -/
def column (c : ColumnEntry) : Column := ⟨c.type, some c.name⟩

end ColumnEntry

namespace TableEntry

/-- The name of the last marked column; empty if none is marked. -/
def keyOf (columns : List ColumnEntry) : String :=
  (((columns.filter ColumnEntry.marked).getLast?).map ColumnEntry.name).getD ""

/-- What stands before the first opening parenthesis, and between it and the last closing one. -/
def halves? (line : List Char) : Option (List Char × List Char) :=
  match line.dropWhile (· ≠ '(') with
  | [] => none
  | _ :: rest =>
    match rest.reverse.dropWhile (· ≠ ')') with
    | [] => none
    | _ :: body => some (line.takeWhile (· ≠ '('), body.reverse)

/-- The table that a line describes. -/
def parse (line : List Char) : Except LineFault TableEntry :=
  match halves? line with
  | none => .error .shape
  | some (before, body) =>
    let name := Text.trim before
    if name = [] then .error .noName
    else
      match ColumnEntry.parseAll (splitOn ',' body) with
      | .error fault => .error fault
      | .ok columns =>
        match Schema.ofColumns? (columns.map ColumnEntry.column) with
        | none => .error .column
        | some schema => .ok ⟨String.ofList name, schema, keyOf columns⟩

end TableEntry
end TableStore
