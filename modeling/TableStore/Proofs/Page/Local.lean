import TableStore.Proofs.Page.Canonical
import TableStore.Proofs.Page.Slots
import TableStore.Proofs.TableFile

/-!
# Which bytes a change of a page touches

The bytes of a page are put together one after the other, so nothing in them says where a slot
begins.  Each slot has its place all the same, since whatever is in the slots before it takes the
same number of bytes, overlong texts included.  That is why putting a row in or taking one away
changes the bytes of one slot and one bit of the bitmap.

## What is here

* `Page.Formed.encode_split` — the bytes before a slot, those of the slot and those after it.
* `Page.Formed.encode_oneSlot` — the bytes of two pages that differ in one slot: a bit is set and
  the slot overwritten.
* `Page.Touched` — strings that agree outside of one slot and its bit.
* `Page.worked_local` — where the slots of a page are in its bytes, and which bytes the calls touch.
-/

set_option autoImplicit false
namespace TableStore

/-! ## Strings -/

namespace Bytes

variable {a b c patch : Bytes} {i : Nat}

theorem getElem?_setBit_of_ne {k : Nat} (hk : k ≠ i / 8) (b : Bytes) (on : Bool) :
    (b.setBit i on)[k]? = b[k]? := by
  rw [setBit, List.getElem?_modify]
  simp only [if_neg (Ne.symm hk)]
  exact id_map _

/-- A bit is set in the part of a string where it is. -/
theorem setBit_append_left (h : i < 8 * b.length) (c : Bytes) (on : Bool) :
    setBit (b ++ c) i on = b.setBit i on ++ c := by
  have hlt : i / 8 < b.length := by omega
  rw [setBit, setBit, List.modify_eq_take_cons_drop hlt,
    List.modify_eq_take_cons_drop (by rw [List.length_append]; omega),
    List.take_append_of_le_length (by omega), List.drop_append_of_le_length (by omega),
    List.getElem_append_left hlt, List.append_assoc, List.cons_append]

/-- What is written over a part of the same length takes its place. -/
theorem overwrite_middle (h : patch.length = b.length) :
    overwrite (a ++ (b ++ c)) a.length patch = a ++ (patch ++ c) := by
  rw [overwrite, resize, List.length_append, Nat.sub_eq_zero_of_le (Nat.le_add_right _ _),
    List.take_left' rfl, h, ← List.append_assoc a b c, List.drop_left' List.length_append,
    zeros, List.replicate_zero, List.append_nil, List.append_assoc]

/-- Writing changes no bit of what stands before. -/
theorem bit_overwrite {start : Nat} (hstart : start ≤ b.length) (hi : i < 8 * start)
    (patch : Bytes) : (b.overwrite start patch).bit i = b.bit i := by
  rw [bit, bit, List.getD_eq_getElem?_getD, List.getD_eq_getElem?_getD, getElem?_overwrite hstart,
    if_pos (by omega)]

end Bytes

namespace Page

variable {size : PageSize} {id : PageId} {schema : Schema} {p q : Page} {r : Row} {i : Nat}

/-! ## The place of a slot

The bytes of a page are cut in three: those before a slot, those of the slot, and those after it.
The cut is at the same place whatever the slots hold. -/

theorem getElem?_of_take {α : Type} {l : List α} {n j : Nat} {x : α} (h : (l.take n)[j]? = some x) :
    l[j]? = some x := by
  rw [List.getElem?_take] at h
  split at h
  · exact h
  · cases h

theorem SlotsFormed.take {bitmap : Bytes} {slots : List (Option Row)}
    (h : SlotsFormed id schema bitmap i slots) (n : Nat) :
    SlotsFormed id schema bitmap i (slots.take n) where
  used j hj := by
    rw [List.length_take] at hj
    rw [List.getElem_take]
    exact h.used j (by omega)
  typed j r hr := h.typed j r (getElem?_of_take hr)
  placed j r hr := h.placed j r (getElem?_of_take hr)

/-- The bytes before slot `i`: the bitmap and the slots below. -/
def bytesBelow (p : Page) (i : Nat) : Bytes :=
  p.bitmap ++ (p.slots.take i).flatMap (encodeSlot p.schema.rowSize)

/-- The bytes after slot `i`: the slots above and zeros up to the size of the page. -/
def bytesAbove (p : Page) (i : Nat) : Bytes :=
  (p.slots.drop (i + 1)).flatMap (encodeSlot p.schema.rowSize) ++
    Bytes.zeros (p.size - (p.bytesBelow p.capacity).length)

/-- Each slot begins where it should, whatever is in those before it. -/
theorem Formed.length_bytesBelow (h : p.Formed size schema) (hi : i ≤ p.capacity) :
    (p.bytesBelow i).length = slotStart size schema i := by
  have hlen := length_flatMap_encodeSlot (h.slotsFormed.take i)
  rw [List.length_take_of_le hi] at hlen
  rw [bytesBelow, h.schema_eq, List.length_append, hlen, h.length_bitmap, slotStart]

/-- The slots end before the page does. -/
theorem Formed.slotStart_le (h : p.Formed size schema) (hi : i ≤ p.capacity) :
    slotStart size schema i ≤ size.bytes := by
  have hle := layout_le size.bytes schema.rowSize
  rw [capacity, h.length_slots] at hi
  exact Nat.le_trans (Nat.add_le_add_left (Nat.mul_le_mul_right _ hi) _) hle

theorem Formed.length_encodeSlot_row? (h : p.Formed size schema) (i : Nat) :
    (encodeSlot schema.rowSize (p.row? i)).length = schema.rowSize := by
  cases hr : p.row? i with
  | none => exact Bytes.length_zeros _
  | some r => rw [encodeSlot, Row.length_encode, h.typed i r hr, Schema.rowSize]

/-- **The bytes of a page fall into those before a slot, those of the slot and those after it.** -/
theorem Formed.encode_split (h : p.Formed size schema) (hi : i < p.capacity) :
    p.encode = p.bytesBelow i ++ (encodeSlot schema.rowSize (p.row? i) ++ p.bytesAbove i) := by
  have hall : p.slots.flatMap (encodeSlot p.schema.rowSize) =
      (p.slots.take i).flatMap (encodeSlot p.schema.rowSize) ++
        (encodeSlot p.schema.rowSize (p.row? i) ++
          (p.slots.drop (i + 1)).flatMap (encodeSlot p.schema.rowSize)) := by
    rw [row?_of_lt hi, ← List.flatMap_cons, ← List.drop_eq_getElem_cons hi, ← List.flatMap_append,
      List.take_append_drop]
  have hwhole : p.bytesBelow p.capacity =
      p.bitmap ++ p.slots.flatMap (encodeSlot p.schema.rowSize) := by
    rw [bytesBelow, capacity, List.take_length]
  have hfit : (p.bytesBelow p.capacity).length ≤ p.size := by
    rw [h.length_bytesBelow (Nat.le_refl _), h.size_eq]
    exact h.slotStart_le (Nat.le_refl _)
  rw [encode, ← hwhole, Bytes.resize_of_length_le hfit, bytesAbove, ← h.schema_eq]
  rw [hwhole, hall, bytesBelow]
  simp only [List.append_assoc]

/-- The bytes of a slot stand in its place. -/
theorem Formed.slice_encode (h : p.Formed size schema) (hi : i < p.capacity) :
    p.encode.slice (slotStart size schema i) schema.rowSize =
      encodeSlot schema.rowSize (p.row? i) := by
  rw [Bytes.slice, h.encode_split hi, List.drop_left' (h.length_bytesBelow (Nat.le_of_lt hi)),
    List.take_left' (h.length_encodeSlot_row? i)]

/-! ## Changing a slot -/

/-- The slots of a page that differs from another in one slot. -/
theorem OneSlot.slots_eq {x : Option Row} (h : p.OneSlot i x q) : q.slots = p.slots.set i x := by
  refine List.ext_getElem (h.capacity_eq.trans List.length_set.symm) fun j hq hp => ?_
  rw [List.length_set] at hp
  have hrow := h.row j
  rw [row?_of_lt hq, row?_of_lt hp] at hrow
  rw [hrow, List.getElem_set]
  by_cases hj : j = i
  · rw [if_pos hj, if_pos hj.symm]
  · rw [if_neg hj, if_neg (Ne.symm hj)]

/-- **The bytes of a page that differs from another in one slot**: the bit of the slot is set or
cleared, and its bytes are overwritten. -/
theorem Formed.encode_oneSlot (h : p.Formed size schema) (hq : q.Formed size schema)
    (hi : i < p.capacity) {x : Option Row} (hone : p.OneSlot i x q) :
    q.encode = (p.encode.setBit i x.isSome).overwrite (slotStart size schema i)
      (encodeSlot schema.rowSize x) := by
  have hi' : i < q.capacity := hone.capacity_eq.symm ▸ hi
  have hx : q.row? i = x := by rw [hone.row, if_pos rfl]
  have hbitmap : q.bitmap = p.bitmap.setBit i x.isSome :=
    Bytes.eq_of_bit_eq (by rw [Bytes.length_setBit, hone.length_bitmap]) fun j => by
      rw [hone.bit, Bytes.bit_setBit (h.lt_bits hi)]
  have hschema : q.schema = p.schema := h.schema_eq ▸ hq.schema_eq
  have hbelow : q.bytesBelow i = (p.bytesBelow i).setBit i x.isSome := by
    rw [bytesBelow, bytesBelow, Bytes.setBit_append_left (h.lt_bits hi), hbitmap, hone.slots_eq,
      List.take_set_of_le (Nat.le_refl i), hschema]
  have hbit : i < 8 * (p.bytesBelow i).length := by
    have := h.lt_bits hi
    rw [bytesBelow, List.length_append]
    omega
  have habove : q.bytesAbove i = p.bytesAbove i := by
    rw [bytesAbove, bytesAbove, hq.length_bytesBelow (Nat.le_refl _),
      h.length_bytesBelow (Nat.le_refl _), hone.capacity_eq, hone.slots_eq,
      List.drop_set_of_lt (Nat.lt_succ_self i), hschema, h.size_eq, hq.size_eq]
  have hlen : (q.bytesBelow i).length = slotStart size schema i :=
    hq.length_bytesBelow (Nat.le_of_lt hi')
  have hslot : (encodeSlot schema.rowSize x).length =
      (encodeSlot schema.rowSize (p.row? i)).length := by
    rw [h.length_encodeSlot_row?, ← hx, hq.length_encodeSlot_row?]
  rw [hq.encode_split hi', h.encode_split hi, Bytes.setBit_append_left hbit, ← hbelow, ← hlen,
    Bytes.overwrite_middle hslot, habove, hx]

/-- The strings `b` and `d` of pages differ at most in the bytes of slot `i` and in its bit. -/
structure Touched (size : PageSize) (schema : Schema) (i : Nat) (b d : Bytes) : Prop where
  length_eq : d.length = b.length
  byte : ∀ k, k ≠ i / 8 → k < slotStart size schema i ∨ slotStart size schema (i + 1) ≤ k →
    d[k]? = b[k]?
  bit : ∀ j, j / 8 = i / 8 → j ≠ i → d.bit j = b.bit j

/-- A page that differs from another in one slot has bytes that differ nowhere else. -/
theorem Formed.touched (h : p.Formed size schema) (hq : q.Formed size schema)
    (hi : i < p.capacity) {x : Option Row} (hone : p.OneSlot i x q) :
    Touched size schema i p.encode q.encode := by
  have hx : q.row? i = x := by rw [hone.row, if_pos rfl]
  have hslot := hq.length_encodeSlot_row? i
  rw [hx] at hslot
  have hend := h.slotStart_le hi
  rw [slotStart_succ] at hend
  have hplen : p.encode.length = size.bytes := (length_encode p).trans h.size_eq
  have hstart : slotStart size schema i ≤ (p.encode.setBit i x.isSome).length := by
    rw [Bytes.length_setBit, hplen]
    omega
  have hbits : i < 8 * slotStart size schema i := by
    have hlt := h.lt_bits hi
    rw [h.length_bitmap] at hlt
    rw [slotStart]
    omega
  rw [h.encode_oneSlot hq hi hone]
  refine ⟨?_, fun k hk hout => ?_, fun j hj hne => ?_⟩
  · rw [Bytes.length_overwrite, Bytes.length_setBit, hslot, hplen]
    omega
  · rw [slotStart_succ] at hout
    rw [Bytes.getElem?_overwrite hstart, hslot, Bytes.getElem?_setBit_of_ne hk]
    rcases hout with hout | hout
    · rw [if_pos hout]
    · rw [if_neg (by omega), if_neg (by omega)]
  · rw [Bytes.bit_overwrite hstart (by omega), Bytes.bit_setBit (by omega), if_neg hne]

/-! ## The calls -/

/-- A row that is put in changes the slot that it comes into. -/
theorem Formed.oneSlot_of_insert (h : p.Formed size schema) {placed : Row}
    (hins : p.insert r = .ok (q, placed)) :
    ∃ i, i < p.capacity ∧ placed.rid = some ⟨p.id, i⟩ ∧ p.OneSlot i (some placed) q := by
  rw [Page.insert] at hins
  split at hins
  · cases hins
  · split at hins
    · cases hins
    · rename_i i hfree
      cases hins
      have hi := (h.head?_freeSlots_iff.1 hfree).1
      exact ⟨i, hi, rfl, h.oneSlot hi (some _)⟩

/-- A row that is taken away changes the slot that it names. -/
theorem Formed.oneSlot_of_remove (h : p.Formed size schema) {bare : Row}
    (hrem : p.remove r = .ok (q, bare)) :
    ∃ i, i < p.capacity ∧ r.rid = some ⟨p.id, i⟩ ∧ p.OneSlot i none q := by
  rw [Page.remove] at hrem
  split at hrem
  · cases hrem
  · rename_i rid hrid
    split at hrem
    · cases hrem
    · rename_i hp
      split at hrem
      · cases hrem
      · rename_i hused
        cases hrem
        rw [isUsed] at hused
        simp only [Bool.not_eq_true', Bool.not_eq_false, Bool.and_eq_true,
          decide_eq_true_eq] at hused
        refine ⟨rid.slot, hused.1, ?_, h.oneSlot hused.1 none⟩
        rw [hrid, ← Decidable.not_not.1 hp]

/-- **Changing a row changes the bytes of its slot and one bit.**  In the bytes of a page, slot `i`
has the place that its number gives it, zeros if it is free.  Putting a row in or taking one away
touches no byte outside of the place of its slot but the one with its bit, and no other bit of that.
-/
theorem worked_local (h : Worked size id schema p) :
    p.capacity = slotCount size.bytes schema.rowSize ∧
      (∀ i, i < p.capacity →
        slotStart size schema (i + 1) ≤ p.encode.length ∧
          p.encode.slice (slotStart size schema i) schema.rowSize =
            match p.row? i with
            | none => Bytes.zeros schema.rowSize
            | some r => r.encode) ∧
      (∀ r q placed, p.insert r = .ok (q, placed) →
        ∃ i, i < p.capacity ∧ placed.rid = some ⟨id, i⟩ ∧
          Touched size schema i p.encode q.encode) ∧
      ∀ r q bare, p.remove r = .ok (q, bare) →
        ∃ i, i < p.capacity ∧ r.rid = some ⟨id, i⟩ ∧ Touched size schema i p.encode q.encode := by
  obtain ⟨hf, rfl⟩ := h.formed
  refine ⟨hf.length_slots, fun i hi => ⟨?_, ?_⟩, fun r q placed hins => ?_, fun r q bare hrem => ?_⟩
  · rw [length_encode, hf.size_eq]
    exact hf.slotStart_le hi
  · rw [hf.slice_encode hi]
    cases p.row? i <;> rfl
  · obtain ⟨i, hi, hplaced, hone⟩ := hf.oneSlot_of_insert hins
    exact ⟨i, hi, hplaced, hf.touched (hf.insert hins).1 hi hone⟩
  · obtain ⟨i, hi, hnamed, hone⟩ := hf.oneSlot_of_remove hrem
    exact ⟨i, hi, hnamed, hf.touched (hf.remove hrem).1 hi hone⟩

/-- A page with room for three texts. -/
def threeTexts : Page :=
  empty ⟨400, by decide⟩ ⟨⟨0⟩, 0⟩ ⟨[⟨.text, some "note"⟩], fun h => by cases h⟩

/-- A text that is longer than what is stored of it stays within its slot. -/
theorem worked_local_threeTexts :
    ∃ q placed, threeTexts.insert { values := [.text (String.ofList (List.replicate 129 'x'))] } =
      .ok (q, placed) ∧
      ∃ i, i < threeTexts.capacity ∧ placed.rid = some ⟨⟨⟨0⟩, 0⟩, i⟩ ∧
        Touched ⟨400, by decide⟩ ⟨[⟨.text, some "note"⟩], by decide⟩ i
          threeTexts.encode q.encode := by
  have hmade : Worked ⟨400, by decide⟩ ⟨⟨0⟩, 0⟩ ⟨[⟨.text, some "note"⟩], by decide⟩ threeTexts :=
    .empty
  obtain ⟨-, -, hinsert, -⟩ := worked_local hmade
  have hok : (threeTexts.insert
      { values := [.text (String.ofList (List.replicate 129 'x'))] }).isOk = true := by
    decide +kernel
  cases hi : threeTexts.insert { values := [.text (String.ofList (List.replicate 129 'x'))] } with
  | error e =>
    rw [hi] at hok
    cases hok
  | ok s => exact ⟨s.1, s.2, rfl, hinsert _ s.1 s.2 hi⟩

end Page
end TableStore
