import TableStore.Proofs.Page.Field
import TableStore.Proofs.Page.RoundTrip

/-!
# The layout of a page

A slot takes the bytes of a row and one bit, but the bits are rounded up to whole bytes.  The number
of slots is computed without the rounding.  It is right all the same: the bitmap and the slots fit on
the page, and with one slot more they would not.

Everything else on a page rests on that.  The functions on pages are total, so a bit past the end of
the bitmap is clear, writing there changes nothing, and bytes past the end of the page are dropped.
Here they are written with accesses that fail, and shown never to fail.

## What is here

* `Page.lt_layout` — more slots than `Page.slotCount` do not fit.
* `Bytes.setBit?` — writing a bit, which fails past the end of the bitmap.
* `Page.isUsed?`, `Page.findFree?`, `Page.put?` — looking at slots and changing one.
* `Page.insert?`, `Page.remove?`, `Page.encode?` — putting a row in, taking one away, and writing the
  page to a string that may only grow.
* `Page.layout_safe` — the number of slots is the largest for which the parts of a page fit, and no
  access to a page is out of range.
-/

set_option autoImplicit false
namespace TableStore

/-! ## Writing a bit -/

/-- The string with bit `i` set or cleared, if it has one. -/
def Bytes.setBit? (b : Bytes) (i : Nat) (on : Bool) : Option Bytes :=
  b[i / 8]?.map fun x => b.set (i / 8) (byteWithBit x (i % 8) on)

theorem Bytes.setBit?_eq {b : Bytes} {i : Nat} (h : i < 8 * b.length) (on : Bool) :
    b.setBit? i on = some (b.setBit i on) := by
  have hlt : i / 8 < b.length := by omega
  rw [setBit?, setBit, List.getElem?_eq_getElem hlt, Option.map_some, List.modify_eq_set_getElem?,
    List.getElem?_eq_getElem hlt]
  rfl

namespace Page

/-! ## The number of slots

The number of slots is a quotient of numbers of bits.  Rounding the bits up to bytes must not take
away room from the last slot, and one more slot must not fit. -/

/-- More slots do not fit: each needs a bit, so that their bits alone fill what is rounded off. -/
theorem lt_layout {size rowSize m : Nat} (h : slotCount size rowSize < m) :
    size < bitmapLength m + m * rowSize := by
  have hmul : m * (rowSize * 8 + 1) = m * rowSize * 8 + m := by rw [Nat.mul_succ, Nat.mul_assoc]
  rw [slotCount, Nat.div_lt_iff_lt_mul (Nat.succ_pos _), hmul] at h
  have hbits := le_bits m
  omega

variable {size : PageSize} {id : PageId} {schema : Schema} {p : Page}

/-- Every slot of a page has a bit. -/
theorem Formed.capacity_le_bits (h : p.Formed size schema) : p.capacity ≤ 8 * p.bitmap.length := by
  rw [capacity, h.length_slots, h.length_bitmap]
  exact le_bits _

/-! ## Looking at slots

Each of these fails where it would look past the last bit or slot, and agrees with what pages are
made of where it does not.  That it never fails is what well-formedness is for. -/

/-- `Page.isUsed` with an access that fails past the end of the bitmap. -/
def isUsed? (p : Page) (i : Nat) : Option Bool :=
  if i < p.capacity then p.bitmap.bit? i else some false

theorem Formed.isUsed?_eq (h : p.Formed size schema) (i : Nat) :
    p.isUsed? i = some (p.isUsed i) := by
  rw [isUsed?, isUsed]
  by_cases hi : i < p.capacity
  · rw [if_pos hi, Bytes.bit?_eq (Nat.lt_of_lt_of_le hi h.capacity_le_bits)]
    simp [hi]
  · simp [hi]

/-- The first of the `n` slots from slot `i` on that is not in use. -/
def findFree? (p : Page) : Nat → Nat → Option (Option Nat)
  | _, 0 => some none
  | i, n + 1 => do
    if ← p.isUsed? i then p.findFree? (i + 1) n else some (some i)

theorem Formed.findFree?_eq (h : p.Formed size schema) (i n : Nat) :
    p.findFree? i n = some ((List.range' i n).find? fun j => !p.isUsed j) := by
  induction n generalizing i with
  | zero => rfl
  | succ n ih =>
    rw [findFree?, h.isUsed?_eq, List.range'_succ, List.find?_cons]
    simp only [Option.bind_eq_bind, Option.bind_some]
    cases p.isUsed i with
    | true => exact ih (i + 1)
    | false => rfl

theorem find?_isUsed (p : Page) :
    ((List.range' 0 p.capacity).find? fun j => !p.isUsed j) = p.freeSlots.head? := by
  rw [← List.range_eq_range', ← List.head?_filter, freeSlots]
  refine congrArg List.head? (List.filter_congr fun j hj => ?_)
  rw [isUsed, decide_eq_true (List.mem_range.1 hj), Bool.true_and]

/-! ## Changing a slot -/

/-- Fills or empties a slot together with its bit, if the page has that slot and that bit. -/
def put? (p : Page) (i : Nat) (slot : Option Row) : Option Page :=
  if i < p.capacity then
    (p.bitmap.setBit? i slot.isSome).map fun bitmap =>
      { p with bitmap, slots := p.slots.set i slot }
  else none

theorem Formed.put?_eq (h : p.Formed size schema) {i : Nat} (hi : i < p.capacity)
    (slot : Option Row) :
    p.put? i slot =
      some { p with bitmap := p.bitmap.setBit i slot.isSome, slots := p.slots.set i slot } := by
  rw [put?, if_pos hi, Bytes.setBit?_eq (Nat.lt_of_lt_of_le hi h.capacity_le_bits)]
  rfl

/-- `Page.insert` with accesses that fail past the last slot. -/
def insert? (p : Page) (r : Row) : Option (Except Error (Page × Row)) :=
  if r.types ≠ p.schema.types then some (.error .schemaMismatch)
  else do
    match ← p.findFree? 0 p.capacity with
    | none => some (.error (.pageFull p.id))
    | some i =>
      let placed := { r with rid := some ⟨p.id, i⟩ }
      let q ← p.put? i (some placed)
      some (.ok (q, placed))

theorem Formed.insert?_eq (h : p.Formed size schema) (r : Row) :
    p.insert? r = some (p.insert r) := by
  rw [insert?, Page.insert, h.findFree?_eq, find?_isUsed]
  split
  · rfl
  · simp only [Option.bind_eq_bind, Option.bind_some]
    cases hfree : p.freeSlots.head? with
    | none => rfl
    | some i =>
      have hmem := List.mem_of_head? hfree
      rw [freeSlots, List.mem_filter, List.mem_range] at hmem
      dsimp only
      rw [h.put?_eq hmem.1]
      rfl

/-- `Page.remove` with accesses that fail past the last slot. -/
def remove? (p : Page) (r : Row) : Option (Except Error (Page × Row)) :=
  match r.rid with
  | none => some (.error .noRecordId)
  | some rid =>
    if rid.page ≠ p.id then some (.error (.notOnPage p.id))
    else do
      if !(← p.isUsed? rid.slot) then some (.error (.slotEmpty p.id rid.slot))
      else
        let q ← p.put? rid.slot none
        some (.ok (q, { r with rid := none }))

theorem Formed.remove?_eq (h : p.Formed size schema) (r : Row) :
    p.remove? r = some (p.remove r) := by
  rw [remove?, Page.remove]
  cases r.rid with
  | none => rfl
  | some rid =>
    dsimp only
    split
    · rfl
    · rw [h.isUsed?_eq]
      simp only [Option.bind_eq_bind, Option.bind_some]
      cases hused : p.isUsed rid.slot with
      | false => rfl
      | true =>
        rw [isUsed, Bool.and_eq_true, decide_eq_true_eq] at hused
        rw [h.put?_eq hused.1]
        rfl

/-! ## Writing a page -/

/-- A slot written after other bytes. -/
def appendSlot? (rowSize : Nat) (out : Bytes) : Option Row → Option Bytes
  | none => some (out ++ Bytes.zeros rowSize)
  | some r => r.values.foldlM (fun out v => v.append? out) out

/-- `Page.encode` written part after part to a string that may only grow, up to the size of the
page. -/
def encode? (p : Page) : Option Bytes := do
  let out ← p.slots.foldlM (appendSlot? p.schema.rowSize) p.bitmap
  if out.length ≤ p.size then some (out ++ Bytes.zeros (p.size - out.length)) else none

/-- Parts written one after the other follow each other. -/
theorem foldlM_append {α : Type} {f : Bytes → α → Option Bytes} {bytes : α → Bytes}
    (hf : ∀ out x, f out x = some (out ++ bytes x)) (l : List α) (out : Bytes) :
    l.foldlM f out = some (out ++ l.flatMap bytes) := by
  induction l generalizing out with
  | nil => simp
  | cons x l ih =>
    rw [List.foldlM_cons, hf, Option.bind_eq_bind, Option.bind_some, ih, List.flatMap_cons,
      List.append_assoc]

theorem appendSlot?_eq (rowSize : Nat) (out : Bytes) (slot : Option Row) :
    appendSlot? rowSize out slot = some (out ++ encodeSlot rowSize slot) := by
  cases slot with
  | none => rfl
  | some r => exact foldlM_append (fun out v => v.append?_eq out) r.values out

theorem Formed.encode?_eq (h : p.Formed size schema) : p.encode? = some p.encode := by
  have hlen := length_flatMap_encodeSlot h.slotsFormed
  have hle := layout_le size.bytes schema.rowSize
  rw [← h.length_bitmap, ← h.length_slots, ← hlen, ← List.length_append, ← h.size_eq] at hle
  rw [encode?, foldlM_append (appendSlot?_eq p.schema.rowSize), encode, h.schema_eq]
  simp only [Option.bind_eq_bind, Option.bind_some]
  rw [if_pos hle, Bytes.resize_of_length_le hle]

/-! ## Nothing is out of range -/

/-- **The number of slots is the largest that fits**, and pages rest on it: whatever the bytes are
that a page is read from, and whatever is done to it since, no access to its bitmap, its slots or its
bytes is out of range, and nothing is cut off when it is written. -/
theorem layout_safe :
    (∀ size rowSize : Nat,
      bitmapLength (slotCount size rowSize) + slotCount size rowSize * rowSize ≤ size ∧
        ∀ m, slotCount size rowSize < m → size < bitmapLength m + m * rowSize) ∧
    ∀ (size : PageSize) (id : PageId) (schema : Schema),
      (∀ data, decode? size id schema data = some (decode size id schema data)) ∧
        ∀ p, Worked size id schema p →
          p.capacity = slotCount size.bytes schema.rowSize ∧
          (∀ i, p.isUsed? i = some (p.isUsed i)) ∧
          (∀ i on, i < p.capacity → p.bitmap.setBit? i on = some (p.bitmap.setBit i on)) ∧
          (∀ r, p.insert? r = some (p.insert r)) ∧ (∀ r, p.remove? r = some (p.remove r)) ∧
          p.encode? = some p.encode := by
  refine ⟨fun size rowSize => ⟨layout_le size rowSize, fun m => lt_layout⟩,
    fun size id schema => ⟨decode?_eq size id schema, fun p hp => ?_⟩⟩
  have h := hp.formed.1
  exact ⟨h.length_slots, h.isUsed?_eq,
    fun i on hi => Bytes.setBit?_eq (Nat.lt_of_lt_of_le hi h.capacity_le_bits) on,
    h.insert?_eq, h.remove?_eq, h.encode?_eq⟩

/-- A page of 33 bytes has room for eight numbers; a ninth would need a second byte of bits. -/
theorem layout_safe_numbers :
    bitmapLength 8 + 8 * 4 = 33 ∧ 33 < bitmapLength 9 + 9 * 4 ∧
      (empty ⟨33, by decide⟩ ⟨⟨0⟩, 0⟩ ⟨[⟨.int, none⟩], by decide⟩).encode? =
        some (Bytes.zeros 33) := by
  obtain ⟨hfit, hpages⟩ := layout_safe
  obtain ⟨-, hworked⟩ := hpages ⟨33, by decide⟩ ⟨⟨0⟩, 0⟩ ⟨[⟨.int, none⟩], by decide⟩
  obtain ⟨-, -, -, -, -, hencode⟩ := hworked _ .empty
  exact ⟨by decide, (hfit 33 4).2 9 (by decide), hencode.trans (congrArg some (encode_empty _ _ _))⟩

end Page
end TableStore
