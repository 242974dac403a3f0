import TableStore.Page.Bitmap
import TableStore.Row
import TableStore.Settings

/-!
# Heap pages

A page of a table has a fixed number of slots of equal size; each is empty or holds a row.

## What is here

* `Page.slotCount` — the slots that fit on a page: each takes the bytes of a row and one bit of the
  bitmap.
* `Page` — a page in memory.  It keeps its bitmap beside its slots, the transaction whose
  uncommitted changes it holds, and its before-image: its bytes when it was loaded or last
  committed.
* `Page.insert`, `Page.remove` — the first free slot is filled; the slot that the row's record id
  names is emptied.
-/

set_option autoImplicit false
namespace TableStore

/-- A page of a table. -/
structure Page where
  id : PageId
  schema : Schema
  /-- The number of bytes that the page takes. -/
  size : Nat
  bitmap : Bytes
  slots : List (Option Row)
  dirtier : Option TxnId
  beforeImage : Bytes
  deriving DecidableEq

namespace Page

/-! ## Layout -/

/-- The number of slots on a page of `size` bytes: a row takes `rowSize` bytes and one bit. -/
def slotCount (size rowSize : Nat) : Nat := size * 8 / (rowSize * 8 + 1)

/-- The bytes of a bitmap with a bit for each slot. -/
def bitmapLength (slots : Nat) : Nat := (slots + 7) / 8

/-- A page without rows, as it is appended to a file. -/
def zeroed (size : PageSize) : Bytes := Bytes.zeros size.bytes

/-! ## Slots -/

/-- The number of slots. -/
def capacity (p : Page) : Nat := p.slots.length

/-- Whether a slot is marked as used.  There are no used slots past the last. -/
def isUsed (p : Page) (i : Nat) : Bool := i < p.capacity && p.bitmap.bit i

/-- The slots that are not marked as used, in increasing order. -/
def freeSlots (p : Page) : List Nat := (List.range p.capacity).filter fun i => !p.bitmap.bit i

/-- The slots that are marked as used, in increasing order. -/
def usedSlots (p : Page) : List Nat := (List.range p.capacity).filter p.isUsed

/-- The row in a slot. -/
def row? (p : Page) (i : Nat) : Option Row := p.slots[i]?.join

/-- The rows in the order of their slots. -/
def rows (p : Page) : List Row := p.slots.filterMap fun s => s

/-- Whether the page holds uncommitted changes. -/
def isDirty (p : Page) : Bool := p.dirtier.isSome

/-! ## Changing rows -/

/-- Puts a row into the first free slot and gives it its record id. -/
def insert (p : Page) (r : Row) : Except Error (Page × Row) :=
  if r.types ≠ p.schema.types then .error .schemaMismatch
  else match p.freeSlots.head? with
    | none => .error (.pageFull p.id)
    | some i =>
      let placed := { r with rid := some ⟨p.id, i⟩ }
      .ok ({ p with bitmap := p.bitmap.setBit i true, slots := p.slots.set i (some placed) },
        placed)

/-- Empties the slot that the row's record id names, and takes the id away. -/
def remove (p : Page) (r : Row) : Except Error (Page × Row) :=
  match r.rid with
  | none => .error .noRecordId
  | some rid =>
    if rid.page ≠ p.id then .error (.notOnPage p.id)
    else if !p.isUsed rid.slot then .error (.slotEmpty p.id rid.slot)
    else .ok
      ({ p with bitmap := p.bitmap.setBit rid.slot false, slots := p.slots.set rid.slot none },
        { r with rid := none })

end Page
end TableStore
