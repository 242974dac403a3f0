import TableStore.Proofs.Page.Formed

/-!
# Decoding stays within the page

`Page.decode` reads bytes with functions that are total: past the end of a string there are zeros,
or fewer bytes.  Here the same decoder is written with accesses that fail past the end, and it is
shown never to fail: whatever the bytes are, nothing outside of them is looked at.

## What is here

* `Bytes.bit?`, `Bytes.slice?` — accesses that fail past the end of a string.
* `FieldType.decode?`, `Page.decodeValues?`, `Page.decodeSlots?`, `Page.decode?` — the decoders with
  these accesses, at offsets from the start of the page.  `none` stands for an access outside.
* `Page.decode?_eq` — the decoder of a page stays inside and gives what `Page.decode` gives.
-/

set_option autoImplicit false
namespace TableStore

/-! ## Accesses

The decoder looks up bytes with functions that have an answer for every index.  Each of them has a
variant here that fails past the end of the bytes; the two agree where the variant does not fail. -/

namespace Bytes

variable {b : Bytes} {i start n : Nat}

/-- Bit `i`, if the string has one. -/
def bit? (b : Bytes) (i : Nat) : Option Bool := b[i / 8]?.map fun x => x.toNat.testBit (i % 8)

/-- The `n` bytes from `start` on, if the string has as many. -/
def slice? (b : Bytes) (start n : Nat) : Option Bytes :=
  if start + n ≤ b.length then some (b.slice start n) else none

/-- The first of the `n` bits from bit `i` on that is set. -/
def findBit? (b : Bytes) : Nat → Nat → Option (Option Nat)
  | _, 0 => some none
  | i, n + 1 => do
    if ← b.bit? i then some (some i) else b.findBit? (i + 1) n

theorem bit?_eq (h : i < 8 * b.length) : b.bit? i = some (b.bit i) := by
  have hlt : i / 8 < b.length := by omega
  simp only [bit?, bit, List.getD_eq_getElem?_getD, List.getElem?_eq_getElem hlt, Option.map_some,
    Option.getD_some]

theorem slice?_eq (h : start + n ≤ b.length) : b.slice? start n = some (b.slice start n) :=
  if_pos h

theorem slice?_rest (h : start ≤ b.length) :
    b.slice? start (b.length - start) = some (b.drop start) := by
  rw [slice?_eq (by omega), slice, ← List.length_drop, List.take_length]

theorem findBit?_eq (h : i + n ≤ 8 * b.length) :
    b.findBit? i n = some ((List.range' i n).find? b.bit) := by
  induction n generalizing i with
  | zero => rfl
  | succ n ih =>
    rw [findBit?, bit?_eq (by omega), List.range'_succ, List.find?_cons]
    cases b.bit i with
    | true => rfl
    | false => exact ih (by omega)

theorem word?_isSome (h : 4 ≤ b.length) : ∃ w, word? (b.slice 0 4) = some w ∧ word? b = some w := by
  match b with
  | a :: b :: c :: d :: _ => exact ⟨_, rfl, rfl⟩

end Bytes

/-! ## Fields -/

namespace FieldType

/-- `FieldType.decode` with accesses that fail past the end. -/
def decode? (t : FieldType) (b : Bytes) : Option (Except FieldFault Value) :=
  if b.length < t.size then some (.error .truncated)
  else do
    let head ← b.slice? 0 4
    let w ← Bytes.word? head
    match t with
    | int => some (.ok (.int w.toInt32))
    | text =>
      if textCapacity < w.toNat then some (.error .lengthOutOfRange)
      else do
        let chars ← b.slice? 4 w.toNat
        match Utf8.decode? chars with
        | some s => some (.ok (.text s))
        | none => some (.error .notUtf8)

theorem decode?_eq (t : FieldType) (b : Bytes) : t.decode? b = some (t.decode b) := by
  rw [decode?, decode.eq_def]
  by_cases hlen : b.length < t.size
  · rw [if_pos hlen, if_pos hlen]
  · rw [if_neg hlen, if_neg hlen]
    have hfour : 4 ≤ t.size := by cases t <;> decide
    obtain ⟨w, hhead, hw⟩ := Bytes.word?_isSome (Nat.le_trans hfour (Nat.not_lt.1 hlen))
    rw [Bytes.slice?_eq (by omega), hw]
    simp only [Option.bind_eq_bind, Option.bind_some, hhead]
    cases t with
    | int => rfl
    | text =>
      dsimp only
      by_cases hcap : textCapacity < w.toNat
      · rw [if_pos hcap, if_pos hcap]
      · rw [if_neg hcap, if_neg hcap, Bytes.slice?_eq (by simp only [size] at hlen; omega)]
        cases hs : Utf8.decode? (b.slice 4 w.toNat) <;> simp only [Option.bind_some, hs]

end FieldType

/-! ## Pages -/

namespace Page

variable {id : PageId} {schema : Schema} {bitmap data b : Bytes}

/-- `Page.decodeValues` with accesses that fail past the end: the values of the given types in the
bytes of a slot, from an offset on. -/
def decodeValues? (b : Bytes) : List FieldType → Nat → Option (Except FieldFault (List Value))
  | [], _ => some (.ok [])
  | t :: ts, offset => do
    let rest ← b.slice? offset (b.length - offset)
    match ← t.decode? rest with
    | .error fault => some (.error fault)
    | .ok v =>
      match ← decodeValues? b ts (offset + t.size) with
      | .error fault => some (.error fault)
      | .ok vs => some (.ok (v :: vs))

theorem decodeValues?_eq {ts : List FieldType} {offset : Nat}
    (h : offset + FieldType.totalSize ts ≤ b.length) :
    decodeValues? b ts offset = some (decodeValues ts (b.drop offset)) := by
  induction ts generalizing offset with
  | nil => rfl
  | cons t ts ih =>
    rw [FieldType.totalSize, ← Nat.add_assoc] at h
    rw [decodeValues?, decodeValues, Bytes.slice?_rest (by omega), List.drop_drop]
    simp only [Option.bind_eq_bind, Option.bind_some, FieldType.decode?_eq, ih h]
    cases t.decode (b.drop offset) with
    | error fault => rfl
    | ok v => cases decodeValues ts (b.drop (offset + t.size)) <;> rfl

/-- `Page.decodeSlots` with accesses that fail past the end: the rows in consecutive slots of a page
that begins with the bitmap. -/
def decodeSlots? (id : PageId) (schema : Schema) (bitmap data : Bytes) :
    Nat → Nat → Option (Except Error (List (Option Row)))
  | _, 0 => some (.ok [])
  | i, n + 1 => do
    let slot : Except Error (Option Row) ←
      if ← bitmap.bit? i then do
        let b ← data.slice? (bitmap.length + i * schema.rowSize) schema.rowSize
        match ← decodeValues? b schema.types 0 with
        | .error fault => some (.error (.corruptPage id (.badSlot i fault)))
        | .ok values => some (.ok (some { values, rid := some ⟨id, i⟩ }))
      else some (.ok none)
    match slot with
    | .error e => some (.error e)
    | .ok s =>
      match ← decodeSlots? id schema bitmap data (i + 1) n with
      | .error e => some (.error e)
      | .ok rest => some (.ok (s :: rest))

theorem decodeSlots?_eq {i n : Nat} (hbits : i + n ≤ 8 * bitmap.length)
    (hdata : bitmap.length + (i + n) * schema.rowSize ≤ data.length) :
    decodeSlots? id schema bitmap data i n =
      some (decodeSlots id schema bitmap i n (data.drop (bitmap.length + i * schema.rowSize))) := by
  induction n generalizing i with
  | zero => rfl
  | succ n ih =>
    have hnext : bitmap.length + i * schema.rowSize + schema.rowSize =
        bitmap.length + (i + 1) * schema.rowSize := by
      rw [Nat.succ_mul, Nat.add_assoc]
    have hlast : (i + 1) * schema.rowSize ≤ (i + (n + 1)) * schema.rowSize :=
      Nat.mul_le_mul_right _ (by omega)
    have htail := ih (i := i + 1) (by omega) (by rwa [Nat.add_right_comm, Nat.add_assoc])
    have hslice : bitmap.length + i * schema.rowSize + schema.rowSize ≤ data.length := by omega
    rw [decodeSlots?, decodeSlots, Bytes.bit?_eq (by omega), List.drop_drop, hnext, htail,
      Bytes.slice?_eq hslice]
    simp only [Option.bind_eq_bind, Option.bind_some]
    have hvalues : decodeValues? (data.slice (bitmap.length + i * schema.rowSize) schema.rowSize)
        schema.types 0 =
        some (decodeValues schema.types
          ((data.drop (bitmap.length + i * schema.rowSize)).take schema.rowSize)) := by
      rw [decodeValues?_eq, List.drop_zero, Bytes.slice]
      rw [Nat.zero_add, Bytes.slice, List.length_take, List.length_drop, ← Schema.rowSize]
      omega
    cases bitmap.bit i with
    | false =>
      simp only [Bool.false_eq_true, ↓reduceIte]
      cases decodeSlots id schema bitmap (i + 1) n
        (data.drop (bitmap.length + (i + 1) * schema.rowSize)) <;> rfl
    | true =>
      simp only [↓reduceIte, Option.bind_some, hvalues]
      cases decodeValues schema.types
        ((data.drop (bitmap.length + i * schema.rowSize)).take schema.rowSize) with
      | error fault => rfl
      | ok values =>
        dsimp only
        cases decodeSlots id schema bitmap (i + 1) n
          (data.drop (bitmap.length + (i + 1) * schema.rowSize)) <;> rfl

/-- `Page.decode` with accesses that fail past the end. -/
def decode? (size : PageSize) (id : PageId) (schema : Schema) (data : Bytes) :
    Option (Except Error Page) :=
  if data.length ≠ size.bytes then
    some (.error (.corruptPage id (.wrongSize size.bytes data.length)))
  else do
    let count := slotCount size.bytes schema.rowSize
    let bitmap ← data.slice? 0 (bitmapLength count)
    match ← bitmap.findBit? count (bitmap.length * 8 - count) with
    | some bit => some (.error (.corruptPage id (.strayBit bit count)))
    | none =>
      match ← decodeSlots? id schema bitmap data 0 count with
      | .error e => some (.error e)
      | .ok slots =>
        some (.ok
          { id, schema, size := size.bytes, bitmap, slots, dirtier := none, beforeImage := data })

/-- **Decoding never looks outside of the bytes**, whatever they are. -/
theorem decode?_eq (size : PageSize) (id : PageId) (schema : Schema) (data : Bytes) :
    decode? size id schema data = some (decode size id schema data) := by
  rw [decode?, decode]
  by_cases hlen : data.length ≠ size.bytes
  · rw [if_pos hlen, if_pos hlen]
  · rw [if_neg hlen, if_neg hlen]
    dsimp only
    have hdata : data.length = size.bytes := Decidable.not_not.1 hlen
    have hle := layout_le size.bytes schema.rowSize
    have hbits := le_bits (slotCount size.bytes schema.rowSize)
    have hbitmap : (data.take (bitmapLength (slotCount size.bytes schema.rowSize))).length =
        bitmapLength (slotCount size.bytes schema.rowSize) := List.length_take_of_le (by omega)
    rw [Bytes.slice?_eq (by omega), Bytes.slice, List.drop_zero]
    simp only [Option.bind_eq_bind, Option.bind_some]
    rw [Bytes.findBit?_eq (by omega), strayBit?,
      decodeSlots?_eq (by omega) (by rw [hbitmap, Nat.zero_add]; omega), hbitmap, Nat.zero_mul,
      Nat.add_zero]
    cases (List.range' _ _).find? _ with
    | some bit => rfl
    | none =>
      simp only [Option.bind_some]
      cases decodeSlots id schema _ 0 _ _ <;> rfl

end Page
end TableStore
