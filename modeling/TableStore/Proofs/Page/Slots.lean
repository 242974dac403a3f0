import TableStore.Proofs.Page.RoundTrip

/-!
# The bitmap and the slots of a page

Which slots of a page are in use is kept twice, in the bits of the bitmap and in the slots
themselves, and a call that puts a row in or takes one away changes the two one after the other, and
the record id of the caller's row besides.  Whatever has been done to a page, and whether or not it
was refused, the two tell the same.

## What is here

* `Bytes.eq_of_bit_eq` — strings of the same length with the same bits are the same.
* `Page.Tallied` — what bitmap, slots and record ids of a page have to do with each other.
* `Page.insertInPlace`, `Page.removeInPlace` — the two calls as they change the caller's page and
  row, one assignment after the other; `Page.insertInPlace_eq` and `Page.removeInPlace_eq` say that
  they come to `Page.insert` and `Page.remove`, and that a refusal comes before the first
  assignment.
* `Page.OneSlot` — a page that differs from another in what a single slot holds.
* `Page.worked_slots` — each page that comes about is tallied, and what the two calls do to it.
-/

set_option autoImplicit false
namespace TableStore

/-! ## Strings and their bits -/

namespace Bytes

variable {b c : Bytes} {i : Nat} {on : Bool}

/-- Strings of the same length with the same bits are the same. -/
theorem eq_of_bit_eq (hlen : b.length = c.length) (h : ∀ i, b.bit i = c.bit i) : b = c := by
  refine List.ext_getElem hlen fun k hb hc => UInt8.toNat_inj.1 (Nat.eq_of_testBit_eq fun j => ?_)
  rcases Nat.lt_or_ge j 8 with hj | hj
  · have hq : (8 * k + j) / 8 = k := by omega
    have hr : (8 * k + j) % 8 = j := by omega
    have hbit := h (8 * k + j)
    rwa [bit, bit, hq, hr, List.getD_eq_getElem?_getD, List.getD_eq_getElem?_getD,
      List.getElem?_eq_getElem hb, List.getElem?_eq_getElem hc] at hbit
  · have hsmall : ∀ x : UInt8, x.toNat.testBit j = false := fun x =>
      Nat.testBit_lt_two_pow (Nat.lt_of_lt_of_le x.toNat_lt (Nat.pow_le_pow_right (by decide) hj))
    rw [hsmall, hsmall]

/-- Writing a bit and then what stood there changes nothing. -/
theorem setBit_setBit (hi : i < 8 * b.length) (hb : b.bit i = on) (other : Bool) :
    (b.setBit i other).setBit i on = b := by
  have hi' : i < 8 * (b.setBit i other).length := by rwa [length_setBit]
  refine eq_of_bit_eq (by rw [length_setBit, length_setBit]) fun j => ?_
  rw [bit_setBit hi', bit_setBit hi]
  by_cases hj : j = i
  · rw [if_pos hj, hj, hb]
  · rw [if_neg hj, if_neg hj]

end Bytes

namespace Page

variable {size : PageSize} {id : PageId} {schema : Schema} {p q : Page} {r : Row} {i : Nat}

/-! ## Counting

Bitmap, slots and record ids are three records of one thing: which slots hold rows. -/

/-- The slots are what is found in them one by one. -/
theorem slots_eq (p : Page) : p.slots = (List.range p.capacity).map p.row? := by
  refine List.ext_getElem (by rw [List.length_map, List.length_range, capacity]) fun i hi _ => ?_
  rw [List.getElem_map, List.getElem_range, row?_of_lt hi]

/-- What bitmap, slots and record ids of a page with the id `id` and rows of `schema` have to do
with each other. -/
structure Tallied (size : PageSize) (id : PageId) (schema : Schema) (p : Page) : Prop where
  id_eq : p.id = id
  schema_eq : p.schema = schema
  capacity_eq : p.capacity = slotCount size.bytes schema.rowSize
  length_bitmap : p.bitmap.length = bitmapLength p.capacity
  used : ∀ i, i < p.capacity → (p.bitmap.bit i = true ↔ ∃ r, p.row? i = some r)
  past : ∀ i, p.capacity ≤ i → p.bitmap.bit i = false
  row : ∀ i r, p.row? i = some r → r.types = schema.types ∧ r.rid = some ⟨id, i⟩
  count : p.freeSlots.length + p.rows.length = p.capacity

/-- Each slot is free or holds one row. -/
theorem Formed.length_freeSlots_add_rows (h : p.Formed size schema) :
    p.freeSlots.length + p.rows.length = p.capacity := by
  have hrows : p.rows.length = (List.range p.capacity).countP p.bitmap.bit := by
    have hbit : (Option.isSome ∘ p.row?) = p.bitmap.bit := funext fun i => (h.used i).symm
    rw [rows, List.length_filterMap_eq_countP, slots_eq, List.countP_map]
    exact congrArg (fun f => List.countP f _) hbit
  have htotal := List.length_eq_countP_add_countP p.bitmap.bit (l := List.range p.capacity)
  simp only [Bool.not_eq_true, Bool.decide_eq_false] at htotal
  rw [List.length_range] at htotal
  rw [hrows, freeSlots, ← List.countP_eq_length_filter, Nat.add_comm]
  exact htotal.symm

theorem Formed.tallied (h : p.Formed size schema) : p.Tallied size p.id schema where
  id_eq := rfl
  schema_eq := h.schema_eq
  capacity_eq := h.length_slots
  length_bitmap := by rw [capacity, h.length_slots, h.length_bitmap]
  used i _ := by rw [h.used, Option.isSome_iff_exists]
  past i hi := by
    rw [h.used, row?_of_length_le hi]
    rfl
  row i r hr := ⟨h.typed i r hr, h.placed i r hr⟩
  count := h.length_freeSlots_add_rows

/-! ## The calls in place

A caller hands over a page and a row, and both are changed in place, one assignment after the other.
What has been assigned stays if a later check fails; that this never shows is part of what is
proved. -/

/-- A call that changes a page and a row of the caller's.  What it has assigned before it fails
stays assigned. -/
abbrev InPlace (α : Type) := EStateM Error (Page × Row) α

/-- Gives the caller's row a record id or takes it away. -/
def setRid (rid : Option RecordId) : InPlace Unit := modify fun (p, r) => (p, { r with rid })

/-- Marks a slot of the caller's page as used or as free. -/
def setMark (i : Nat) (on : Bool) : InPlace Unit :=
  modify fun (p, r) => ({ p with bitmap := p.bitmap.setBit i on }, r)

/-- Puts a row, or nothing, into a slot of the caller's page. -/
def setSlot (i : Nat) (x : Option Row) : InPlace Unit :=
  modify fun (p, r) => ({ p with slots := p.slots.set i x }, r)

/-- Puts the caller's row into the first free slot of the page. -/
def insertInPlace : InPlace RecordId := do
  let (p, r) ← get
  if r.types ≠ p.schema.types then throw .schemaMismatch
  let some i := (List.range p.capacity).find? fun i => !p.isUsed i | throw (.pageFull p.id)
  setRid (some ⟨p.id, i⟩)
  setMark i true
  let (_, placed) ← get
  setSlot i (some placed)
  return ⟨p.id, i⟩

/-- Empties the slot of the page that the record id of the caller's row names. -/
def removeInPlace : InPlace Unit := do
  let (p, r) ← get
  let some rid := r.rid | throw .noRecordId
  if rid.page ≠ p.id then throw (.notOnPage p.id)
  if !p.isUsed rid.slot then throw (.slotEmpty p.id rid.slot)
  setMark rid.slot false
  setSlot rid.slot none
  setRid none

/-- The first slot that is not used is the first that is free. -/
theorem find?_not_isUsed (p : Page) :
    ((List.range p.capacity).find? fun i => !p.isUsed i) = p.freeSlots.head? := by
  rw [freeSlots, ← List.head?_filter]
  refine congrArg List.head? (List.filter_congr fun i hi => ?_)
  rw [isUsed, decide_eq_true (List.mem_range.1 hi), Bool.true_and]

theorem insertInPlace_eq (p : Page) (r : Row) :
    insertInPlace.run (p, r) =
      match p.insert r with
      | .error e => .error e (p, r)
      | .ok (q, placed) => .ok ⟨p.id, p.freeSlots.head?.getD 0⟩ (q, placed) := by
  have hget : insertInPlace.run (p, r) = (do
      if r.types ≠ p.schema.types then throw .schemaMismatch
      let some i := (List.range p.capacity).find? fun i => !p.isUsed i | throw (.pageFull p.id)
      setRid (some ⟨p.id, i⟩)
      setMark i true
      let (_, placed) ← get
      setSlot i (some placed)
      return ⟨p.id, i⟩ : InPlace RecordId).run (p, r) := rfl
  rw [hget, find?_not_isUsed, insert]
  by_cases ht : r.types ≠ p.schema.types
  · rw [if_pos ht, if_pos ht]
    rfl
  · rw [if_neg ht, if_neg ht]
    cases p.freeSlots.head? with
    | none => rfl
    | some i => rfl

theorem removeInPlace_eq (p : Page) (r : Row) :
    removeInPlace.run (p, r) =
      match p.remove r with
      | .error e => .error e (p, r)
      | .ok s => .ok () s := by
  have hget : removeInPlace.run (p, r) = (do
      let some rid := r.rid | throw .noRecordId
      if rid.page ≠ p.id then throw (.notOnPage p.id)
      if !p.isUsed rid.slot then throw (.slotEmpty p.id rid.slot)
      setMark rid.slot false
      setSlot rid.slot none
      setRid none : InPlace Unit).run (p, r) := rfl
  rw [hget, remove]
  cases r.rid with
  | none => rfl
  | some rid =>
    dsimp only
    by_cases hp : rid.page ≠ p.id
    · rw [if_pos hp, if_pos hp]
      rfl
    · rw [if_neg hp, if_neg hp]
      cases p.isUsed rid.slot with
      | false => rfl
      | true => rfl

/-! ## What the calls do -/

/-- A page like `p` but for slot `i`, which holds `x`. -/
structure OneSlot (p : Page) (i : Nat) (x : Option Row) (q : Page) : Prop where
  rest : q = { p with bitmap := q.bitmap, slots := q.slots }
  capacity_eq : q.capacity = p.capacity
  length_bitmap : q.bitmap.length = p.bitmap.length
  row : ∀ j, q.row? j = if j = i then x else p.row? j
  bit : ∀ j, q.bitmap.bit j = if j = i then x.isSome else p.bitmap.bit j

theorem Formed.lt_bits (h : p.Formed size schema) (hi : i < p.capacity) :
    i < 8 * p.bitmap.length := by
  rw [h.length_bitmap, ← h.length_slots]
  exact Nat.lt_of_lt_of_le hi (le_bits _)

/-- Writing a slot together with its bit leaves the rest of the page. -/
theorem Formed.oneSlot (h : p.Formed size schema) (hi : i < p.capacity) (x : Option Row) :
    p.OneSlot i x { p with bitmap := p.bitmap.setBit i x.isSome, slots := p.slots.set i x } where
  rest := rfl
  capacity_eq := List.length_set
  length_bitmap := Bytes.length_setBit _ _ _
  row := row?_set hi _
  bit := Bytes.bit_setBit (h.lt_bits hi) _

/-- What happens when `r` is put into `p`: it is refused, page and row being what they were, or it
comes into the first free slot, from where it can be taken away again. -/
structure Inserts (p : Page) (r : Row) : Prop where
  failed : ∀ e s, insertInPlace.run (p, r) = .error e s → s = (p, r)
  mismatch : r.types ≠ p.schema.types → insertInPlace.run (p, r) = .error .schemaMismatch (p, r)
  full : r.types = p.schema.types →
    (insertInPlace.run (p, r) = .error (.pageFull p.id) (p, r) ↔
      ∀ i, i < p.capacity → p.row? i ≠ none)
  done : ∀ i, r.types = p.schema.types → i < p.capacity → p.row? i = none →
    (∀ j, j < i → p.row? j ≠ none) →
    ∃ q placed, placed = { r with rid := some ⟨p.id, i⟩ } ∧
      insertInPlace.run (p, r) = .ok ⟨p.id, i⟩ (q, placed) ∧ p.OneSlot i (some placed) q ∧
      removeInPlace.run (q, placed) = .ok () (p, { r with rid := none })

/-- What happens when `r` is taken away from `p`: it is refused, page and row being what they were,
or the slot is emptied that its record id names. -/
structure Removes (p : Page) (r : Row) : Prop where
  failed : ∀ e s, removeInPlace.run (p, r) = .error e s → s = (p, r)
  noRecordId : r.rid = none → removeInPlace.run (p, r) = .error .noRecordId (p, r)
  notOnPage : ∀ rid, r.rid = some rid → rid.page ≠ p.id →
    removeInPlace.run (p, r) = .error (.notOnPage p.id) (p, r)
  slotEmpty : ∀ i, r.rid = some ⟨p.id, i⟩ → p.row? i = none →
    removeInPlace.run (p, r) = .error (.slotEmpty p.id i) (p, r)
  done : ∀ i, r.rid = some ⟨p.id, i⟩ → p.row? i ≠ none →
    ∃ q, removeInPlace.run (p, r) = .ok () (q, { r with rid := none }) ∧ p.OneSlot i none q

/-- The first free slot is the lowest one that holds no row. -/
theorem Formed.head?_freeSlots_iff (h : p.Formed size schema) : p.freeSlots.head? = some i ↔
    i < p.capacity ∧ p.row? i = none ∧ ∀ j, j < i → p.row? j ≠ none := by
  have hfree : ∀ j, (!p.bitmap.bit j) = true ↔ p.row? j = none := fun j => by
    rw [h.used, Bool.not_eq_true', Option.isSome_eq_false_iff, Option.isNone_iff_eq_none]
  rw [freeSlots, List.head?_filter, List.find?_range_eq_some, List.mem_range, hfree]
  constructor
  · rintro ⟨hi, hlt, hfirst⟩
    refine ⟨hlt, hi, fun j hj hn => ?_⟩
    have hused := hfirst j hj
    rw [(hfree j).2 hn] at hused
    cases hused
  · rintro ⟨hlt, hi, hfirst⟩
    refine ⟨hi, hlt, fun j hj => ?_⟩
    rw [Bool.not_eq_true']
    exact Bool.eq_false_iff.2 fun hn => hfirst j hj ((hfree j).1 hn)

/-- The page after a row has been put into slot `i`, and the row. -/
def filled (p : Page) (r : Row) (i : Nat) : Page × Row :=
  let placed := { r with rid := some ⟨p.id, i⟩ }
  ({ p with bitmap := p.bitmap.setBit i true, slots := p.slots.set i (some placed) }, placed)

theorem insertInPlace_of_head (ht : r.types = p.schema.types) (hi : p.freeSlots.head? = some i) :
    insertInPlace.run (p, r) = .ok ⟨p.id, i⟩ (p.filled r i) := by
  rw [insertInPlace_eq, Page.insert, if_neg (not_not_intro ht), hi]
  rfl

/-- What has just been put into a free slot is taken away again, and the page is what it was. -/
theorem Formed.removeInPlace_filled (h : p.Formed size schema) (hi : i < p.capacity)
    (hfree : p.row? i = none) (r : Row) :
    removeInPlace.run (p.filled r i) = .ok () (p, { r with rid := none }) := by
  have hlt := h.lt_bits hi
  have hbit : p.bitmap.bit i = false := by
    rw [h.used, hfree]
    rfl
  have hused : (p.filled r i).1.isUsed i = true := by
    have hcap : i < (p.filled r i).1.capacity := by
      rw [capacity, filled, List.length_set]
      exact hi
    have hset : (p.bitmap.setBit i true).bit i = true := by
      rw [Bytes.bit_setBit hlt, if_pos rfl]
    rw [isUsed, decide_eq_true hcap, Bool.true_and]
    exact hset
  have hslots : (p.slots.set i (some { r with rid := some ⟨p.id, i⟩ })).set i none = p.slots := by
    have hi' : i < p.slots.length := hi
    rw [row?_of_lt hi'] at hfree
    rw [List.set_set, ← hfree, List.set_getElem_self]
  have hremove : (p.filled r i).1.remove (p.filled r i).2 =
      .ok (p, { r with rid := none }) := by
    rw [filled] at hused
    rw [filled, Page.remove]
    dsimp only at hused ⊢
    rw [if_neg (not_not_intro rfl), hused, Bytes.setBit_setBit hlt hbit, hslots]
    rfl
  have heq := removeInPlace_eq (p.filled r i).1 (p.filled r i).2
  rw [hremove] at heq
  exact heq

theorem Formed.inserts (h : p.Formed size schema) (r : Row) : p.Inserts r where
  failed e s he := by
    rw [insertInPlace_eq] at he
    split at he <;> cases he
    rfl
  mismatch ht := by
    rw [insertInPlace_eq, Page.insert, if_pos ht]
  full ht := by
    refine Iff.trans ?_ (List.head?_eq_none_iff.trans h.freeSlots_eq_nil_iff)
    cases hi : p.freeSlots.head? with
    | none =>
      rw [insertInPlace_eq, Page.insert, if_neg (not_not_intro ht), hi]
      exact iff_of_true rfl rfl
    | some i =>
      rw [insertInPlace_of_head ht hi]
      refine iff_of_false ?_ ?_ <;> rintro ⟨⟩
  done i ht hi hfree hfirst :=
    ⟨_, _, rfl, insertInPlace_of_head ht (h.head?_freeSlots_iff.2 ⟨hi, hfree, hfirst⟩),
      h.oneSlot hi (some _), h.removeInPlace_filled hi hfree r⟩

theorem Formed.removes (h : p.Formed size schema) (r : Row) : p.Removes r where
  failed e s he := by
    rw [removeInPlace_eq] at he
    split at he <;> cases he
    rfl
  noRecordId hr := by
    rw [removeInPlace_eq, Page.remove, hr]
  notOnPage rid hr hp := by
    rw [removeInPlace_eq, Page.remove, hr]
    dsimp only
    rw [if_pos hp]
  slotEmpty i hr hfree := by
    have hused : p.isUsed i = false := by
      rw [h.isUsed_eq, hfree]
      rfl
    rw [removeInPlace_eq, Page.remove, hr]
    dsimp only
    rw [if_neg (not_not_intro rfl), hused]
    rfl
  done i hr hrow := by
    have hused : p.isUsed i = true := by
      rw [h.isUsed_eq, Option.isSome_iff_ne_none]
      exact hrow
    have hi : i < p.capacity := Nat.lt_of_not_le fun hle => hrow (row?_of_length_le hle)
    refine ⟨_, ?_, h.oneSlot hi none⟩
    rw [removeInPlace_eq, Page.remove, hr]
    dsimp only
    rw [if_neg (not_not_intro rfl), hused]
    rfl

/-- A page on which one of the calls has succeeded came about like any other. -/
theorem Worked.inPlace (h : Worked size id schema p) (r : Row) :
    (∀ rid s, insertInPlace.run (p, r) = .ok rid s → Worked size id schema s.1) ∧
      ∀ s, removeInPlace.run (p, r) = .ok () s → Worked size id schema s.1 := by
  constructor
  · intro rid s hs
    have hworked := h.edited (.insert r)
    rw [insertInPlace_eq] at hs
    rw [Edit.apply] at hworked
    cases hi : p.insert r with
    | error e =>
      rw [hi] at hs
      cases hs
    | ok s =>
      rw [hi] at hs hworked
      cases hs
      exact hworked
  · intro s hs
    have hworked := h.edited (.remove r)
    rw [removeInPlace_eq] at hs
    rw [Edit.apply] at hworked
    cases hr : p.remove r with
    | error e =>
      rw [hr] at hs
      cases hs
    | ok s =>
      rw [hr] at hs hworked
      cases hs
      exact hworked

/-- **Bitmap, slots and record ids of a page always tell the same.**  However a page came about,
with refused calls among those that made it or without, exactly the slots hold a row whose bit is
set, no other bit is, and each row has the types of the schema and knows its slot.  A row is put
into the first free slot and taken away from the slot that it names, nothing else changes, and a
call that is refused changes neither page nor row.  Taking away what has just been put in gives back
the page. -/
theorem worked_slots (h : Worked size id schema p) :
    p.Tallied size id schema ∧ ∀ r, p.Inserts r ∧ p.Removes r ∧
      (∀ rid s, insertInPlace.run (p, r) = .ok rid s → Worked size id schema s.1) ∧
      ∀ s, removeInPlace.run (p, r) = .ok () s → Worked size id schema s.1 := by
  obtain ⟨hf, rfl⟩ := h.formed
  exact ⟨hf.tallied, fun r => ⟨hf.inserts r, hf.removes r, h.inPlace r⟩⟩

/-- A page with two slots, of which the first has been filled. -/
def halfFull : Page :=
  (Edit.insert { values := [.int 1] }).apply
    (empty ⟨10, by decide⟩ ⟨⟨0⟩, 0⟩ ⟨[⟨.int, some "n"⟩], by decide⟩)

/-- Another row comes into the second slot, and is taken away again. -/
theorem worked_slots_halfFull :
    halfFull.freeSlots.length + halfFull.rows.length = halfFull.capacity ∧
      ∃ q placed, placed = { values := [.int 2], rid := some ⟨halfFull.id, 1⟩ } ∧
        insertInPlace.run (halfFull, { values := [.int 2] }) =
          .ok ⟨halfFull.id, 1⟩ (q, placed) ∧
        halfFull.OneSlot 1 (some placed) q ∧
        removeInPlace.run (q, placed) = .ok () (halfFull, { values := [.int 2] }) := by
  have hmade : Worked ⟨10, by decide⟩ ⟨⟨0⟩, 0⟩ ⟨[⟨.int, some "n"⟩], by decide⟩ halfFull :=
    .edited .empty _
  obtain ⟨htallied, hcalls⟩ := worked_slots hmade
  refine ⟨htallied.count, (hcalls { values := [.int 2] }).1.done 1 ?_ ?_ ?_ ?_⟩ <;> decide +kernel

end Page
end TableStore
