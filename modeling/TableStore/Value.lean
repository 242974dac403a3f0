import TableStore.Text.Utf8

/-!
# Field values

A field holds a whole number of 32 bits or a text.  The type of a field fixes how many bytes its
value takes: a number takes four, a text takes a length of four bytes and `textCapacity` bytes for
its characters, unused ones being zero.

## What is here

* `FieldType`, `Value` — the two types and their values.
* `Value.encode`, `FieldType.decode` — the bytes of a value, and the value in the first bytes of a
  string.  `length_encode` says that an encoding has the size of its type.
* `Value.stored` — what is left of a value once it has been encoded: a text that is too long is
  cut.
* `Value.compare` — numbers by size, before all texts; texts in the order of their bytes.
-/

set_option autoImplicit false
namespace TableStore

/-- The number of bytes kept of a text. -/
def textCapacity : Nat := 128

/-- The type of a field. -/
inductive FieldType where
  | int
  | text
  deriving DecidableEq, Repr, Inhabited

namespace FieldType

/-- The number of bytes that a value of the type takes. -/
def size : FieldType → Nat
  | int => 4
  | text => 4 + textCapacity

/-- The number of bytes that values of the types take one after the other. -/
def totalSize : List FieldType → Nat
  | [] => 0
  | t :: ts => t.size + totalSize ts

theorem totalSize_append (ts us : List FieldType) :
    totalSize (ts ++ us) = totalSize ts + totalSize us := by
  induction ts with
  | nil => exact (Nat.zero_add _).symm
  | cons t ts ih => rw [List.cons_append, totalSize, totalSize, ih, Nat.add_assoc]

/-- The type with a name as it stands in a schema file, in any mixture of ASCII cases. -/
def ofName? (name : String) : Option FieldType :=
  let lower := name.toList.map Char.toLower
  if lower = ['i', 'n', 't'] then some int
  else if lower = ['s', 't', 'r', 'i', 'n', 'g'] then some text
  else none

/-- The type as descriptions write it. -/
def toText : FieldType → String
  | int => "INT"
  | text => "STRING"

theorem size_pos (t : FieldType) : 0 < t.size := by cases t <;> decide

end FieldType

/-- The value of a field. -/
inductive Value where
  | int (n : Int32)
  | text (s : String)
  deriving DecidableEq

/-- Why bytes hold no value of a type. -/
inductive FieldFault where
  /-- There are fewer bytes than the type takes. -/
  | truncated
  /-- The length of the text is negative or exceeds the capacity. -/
  | lengthOutOfRange
  /-- The characters are not valid UTF-8. -/
  | notUtf8
  deriving DecidableEq, Repr

/-- The fault in words. -/
def FieldFault.message : FieldFault → String
  | truncated => "field truncated"
  | lengthOutOfRange => "text length out of range"
  | notUtf8 => "text is not valid UTF-8"

namespace Value

/-- The type of a value. -/
def type : Value → FieldType
  | int _ => .int
  | text _ => .text

/-- The value as rows show it: a number in decimal digits, a text as it is. -/
def toText : Value → String
  | int n => toString n.toInt
  | text s => s

/-- What remains of a value when it is stored: a text keeps the longest start of whole characters
that fits its capacity. -/
def stored : Value → Value
  | int n => int n
  | text s => text (Utf8.fit textCapacity s)

/-! ## Encoding -/

/-- The bytes of a value. -/
def encode : Value → Bytes
  | int n => Bytes.ofWord n.toUInt32
  | text s =>
    let chars := Utf8.encode (Utf8.fit textCapacity s)
    Bytes.ofWord (UInt32.ofNat chars.length) ++ chars.resize textCapacity

@[simp] theorem length_encode (v : Value) : v.encode.length = v.type.size := by
  cases v with
  | int n => rfl
  | text s => simp [encode, type, FieldType.size]

@[simp] theorem type_stored (v : Value) : v.stored.type = v.type := by cases v <;> rfl

/-! ## Order -/

/-- Byte strings in lexicographic order. -/
def compareBytes : Bytes → Bytes → Ordering
  | [], [] => .eq
  | [], _ :: _ => .lt
  | _ :: _, [] => .gt
  | a :: as, b :: bs => (Ord.compare a b).then (compareBytes as bs)

/-- Numbers by size, before all texts; texts in the order of their bytes. -/
def compare : Value → Value → Ordering
  | int m, int n => Ord.compare m.toInt n.toInt
  | int _, text _ => .lt
  | text _, int _ => .gt
  | text s, text t => compareBytes (Utf8.encode s) (Utf8.encode t)

end Value

namespace FieldType

/-- The value of the type in the first bytes of a string. -/
def decode (t : FieldType) (b : Bytes) : Except FieldFault Value :=
  if b.length < t.size then .error .truncated
  else match t, Bytes.word? b with
    | _, none => .error .truncated
    | int, some w => .ok (.int w.toInt32)
    | text, some w =>
      if textCapacity < w.toNat then .error .lengthOutOfRange
      else match Utf8.decode? (b.slice 4 w.toNat) with
        | some s => .ok (.text s)
        | none => .error .notUtf8

theorem type_of_decode {t : FieldType} {b : Bytes} {v : Value} (h : t.decode b = .ok v) :
    v.type = t := by
  unfold decode at h
  split at h
  · cases h
  · split at h
    · cases h
    · cases h
      rfl
    · split at h
      · cases h
      · split at h
        · cases h
          rfl
        · cases h

end FieldType
end TableStore
