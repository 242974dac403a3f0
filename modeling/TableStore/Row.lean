import TableStore.Error
import TableStore.Schema

/-!
# Rows

A row is a list of values, and the place where it is stored if it is stored.  Its types are the
types of its values.

## What is here

* `Row.ofValues` — a row for a table: first the number of values is compared, then their types.
* `Row.set` — replaces a value by another of the same type.
* `Row.encode` — the bytes of the values, one after the other.
-/

set_option autoImplicit false
namespace TableStore

/-- A row: its values, and its place once it has one. -/
structure Row where
  values : List Value
  rid : Option RecordId := none
  deriving DecidableEq

namespace Row

/-- The types of the values. -/
def types (r : Row) : List FieldType := r.values.map Value.type

/-- A row of the schema, not stored anywhere. -/
def ofValues (s : Schema) (values : List Value) : Except Error Row :=
  if values.length ≠ s.width then .error (.fieldCount s.width values.length)
  else if values.map Value.type ≠ s.types then .error .schemaMismatch
  else .ok { values }

/-- The row with the value at `i` replaced by one of the same type. -/
def set (r : Row) (i : Nat) (v : Value) : Except Error Row :=
  if r.types[i]? = some v.type then .ok { r with values := r.values.set i v }
  else .error .schemaMismatch

/-- The bytes of the values, one after the other. -/
def encode (r : Row) : Bytes := r.values.flatMap Value.encode

/-- What remains of a row when it is stored. -/
def stored (r : Row) : Row := { r with values := r.values.map Value.stored }

/-- The values separated by tabs. -/
def toText (r : Row) : String := "\t".intercalate (r.values.map Value.toText)

theorem types_of_ofValues {s : Schema} {values : List Value} {r : Row}
    (h : ofValues s values = .ok r) : r.types = s.types ∧ r.rid = none := by
  unfold ofValues at h
  split at h
  · cases h
  · split at h
    · cases h
    · next ht =>
      cases h
      exact ⟨Decidable.not_not.1 ht, rfl⟩

theorem length_encode (r : Row) : r.encode.length = FieldType.totalSize r.types := by
  rw [encode, types]
  induction r.values with
  | nil => rfl
  | cons v vs ih =>
    rw [List.flatMap_cons, List.length_append, Value.length_encode, ih]
    rfl

end Row
end TableStore
