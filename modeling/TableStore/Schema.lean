import TableStore.Value

/-!
# Schemas

The columns of a table: a non-empty list of types, each with a name or without one.

## What is here

* `Schema.ofTypes?`, `Schema.ofNamed?` — schemas from their parts; there is none without columns,
  or with another number of names than of types.
* `Schema.rowSize` — the bytes that a row takes.
* `Schema.sameTypes` — two schemas agree if their types do; names do not count.
* `Schema.append` — the columns of one table followed by those of another.
-/

set_option autoImplicit false
namespace TableStore

/-- A column of a table. -/
structure Column where
  type : FieldType
  name : Option String
  deriving DecidableEq, Repr

/-- The columns of a table. -/
structure Schema where
  columns : List Column
  nonempty : columns ≠ []
  deriving DecidableEq

/-- The column as descriptions write it; without a name it is called `null`. -/
def Column.toText (c : Column) : String := c.name.getD "null" ++ "(" ++ c.type.toText ++ ")"

namespace Schema

/-- The schema with these columns, if there are any. -/
def ofColumns? (columns : List Column) : Option Schema :=
  if h : columns = [] then none else some ⟨columns, h⟩

/-- The schema of columns without names. -/
def ofTypes? (types : List FieldType) : Option Schema :=
  ofColumns? (types.map fun t => ⟨t, none⟩)

/-- The schema of columns with names, one for each type. -/
def ofNamed? (types : List FieldType) (names : List String) : Option Schema :=
  if types.length = names.length then
    ofColumns? (types.zipWith (fun t n => ⟨t, some n⟩) names)
  else none

/-- The columns of `s`, then those of `t`. -/
def append (s t : Schema) : Schema :=
  ⟨s.columns ++ t.columns, fun h => s.nonempty (List.append_eq_nil_iff.1 h).1⟩

instance : Append Schema := ⟨append⟩

/-- The types of the columns. -/
def types (s : Schema) : List FieldType := s.columns.map Column.type

/-- The number of columns. -/
def width (s : Schema) : Nat := s.columns.length

/-- The number of bytes that a row takes. -/
def rowSize (s : Schema) : Nat := FieldType.totalSize s.types

/-- Whether two schemas have the same types; names do not count. -/
def sameTypes (s t : Schema) : Bool := s.types = t.types

/-- The position of the first column with the name. -/
def indexOf? (s : Schema) (name : String) : Option Nat :=
  s.columns.findIdx? fun c => c.name = some name

/-- The schema as descriptions write it. -/
def toText (s : Schema) : String := ", ".intercalate (s.columns.map Column.toText)

theorem rowSize_append (s t : Schema) : (s ++ t).rowSize = s.rowSize + t.rowSize := by
  have htypes : (s ++ t).types = s.types ++ t.types := List.map_append
  rw [rowSize, rowSize, rowSize, htypes, FieldType.totalSize_append]

theorem rowSize_pos (s : Schema) : 0 < s.rowSize := by
  obtain ⟨columns, h⟩ := s
  cases columns with
  | nil => exact absurd rfl h
  | cons c cs =>
    have := c.type.size_pos
    simp only [rowSize, types, List.map_cons, FieldType.totalSize]
    omega

end Schema
end TableStore
