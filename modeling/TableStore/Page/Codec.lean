import TableStore.Page.Basic

/-!
# Pages as bytes

The bytes of a page are its bitmap, its slots one after the other, and zeros up to the size of the
page.  An empty slot is all zeros.

## What is here

* `Page.encode`, `Page.decode` — the bytes of a page, and the page in a byte string.  Decoding
  refuses a string of another length, a bit set for no slot, and a used slot that holds no row.
* `Page.empty` — a page without rows.
* `Page.clean` — a page after its changes have been written: nobody's, with its own bytes as
  before-image.
-/

set_option autoImplicit false
namespace TableStore
namespace Page

/-! ## Encoding -/

/-- The bytes of a slot. -/
def encodeSlot (rowSize : Nat) : Option Row → Bytes
  | none => Bytes.zeros rowSize
  | some r => r.encode

/-- The bytes of a page. -/
def encode (p : Page) : Bytes :=
  (p.bitmap ++ p.slots.flatMap (encodeSlot p.schema.rowSize)).resize p.size

@[simp] theorem length_encode (p : Page) : p.encode.length = p.size := by simp [encode]

/-! ## Decoding -/

/-- The values of the given types in the bytes of a slot, one after the other. -/
def decodeValues : List FieldType → Bytes → Except FieldFault (List Value)
  | [], _ => .ok []
  | t :: ts, b =>
    match t.decode b with
    | .error fault => .error fault
    | .ok v =>
      match decodeValues ts (b.drop t.size) with
      | .error fault => .error fault
      | .ok vs => .ok (v :: vs)

/-- The rows in consecutive slots, beginning with slot `i`, whose bytes come first in `b`. -/
def decodeSlots (id : PageId) (schema : Schema) (bitmap : Bytes) :
    Nat → Nat → Bytes → Except Error (List (Option Row))
  | _, 0, _ => .ok []
  | i, n + 1, b =>
    let slot : Except Error (Option Row) :=
      if bitmap.bit i then
        match decodeValues schema.types (b.take schema.rowSize) with
        | .error fault => .error (.corruptPage id (.badSlot i fault))
        | .ok values => .ok (some { values, rid := some ⟨id, i⟩ })
      else .ok none
    match slot with
    | .error e => .error e
    | .ok s =>
      match decodeSlots id schema bitmap (i + 1) n (b.drop schema.rowSize) with
      | .error e => .error e
      | .ok rest => .ok (s :: rest)

/-- The first bit of a bitmap that is set though it stands for none of the slots. -/
def strayBit? (bitmap : Bytes) (slots : Nat) : Option Nat :=
  (List.range' slots (bitmap.length * 8 - slots)).find? bitmap.bit

/-- The page in a byte string. -/
def decode (size : PageSize) (id : PageId) (schema : Schema) (data : Bytes) : Except Error Page :=
  if data.length ≠ size.bytes then
    .error (.corruptPage id (.wrongSize size.bytes data.length))
  else
    let count := slotCount size.bytes schema.rowSize
    let bitmap := data.take (bitmapLength count)
    match strayBit? bitmap count with
    | some bit => .error (.corruptPage id (.strayBit bit count))
    | none =>
      match decodeSlots id schema bitmap 0 count (data.drop (bitmapLength count)) with
      | .error e => .error e
      | .ok slots =>
        .ok { id, schema, size := size.bytes, bitmap, slots, dirtier := none, beforeImage := data }

/-! ## Empty and clean pages -/

/-- The page with its present bytes as before-image. -/
def snapshot (p : Page) : Page := { p with beforeImage := p.encode }

/-- A page without rows, whose before-image is itself. -/
def empty (size : PageSize) (id : PageId) (schema : Schema) : Page :=
  let count := slotCount size.bytes schema.rowSize
  snapshot
    { id, schema
      size := size.bytes
      bitmap := Bytes.zeros (bitmapLength count)
      slots := List.replicate count none
      dirtier := none
      beforeImage := [] }

/-- The page once its changes have been written. -/
def clean (p : Page) : Page := { p with dirtier := none }.snapshot

/-- The page that the before-image holds. -/
def before (size : PageSize) (p : Page) : Except Error Page :=
  decode size p.id p.schema p.beforeImage

end Page
end TableStore
