import TableStore.Proofs.Page.Stored

/-!
# Well-formed pages

A page in memory keeps a bitmap beside its slots.  The two agree on every page that was read from a
file, and go on agreeing when rows are put in and taken away; that is why a page can be written and
read back.

## What is here

* `Page.Formed` — bitmap, slots, schema and places of a page agree.
* `Page.formed_of_decode` — a page that comes from bytes is well-formed.
* `Page.Formed.decode_encode_eq` — a well-formed page is read back from its bytes, with its rows cut
  to what is stored; `Page.Formed.decode_encode` says so of its rows.
* `Page.Formed.insert`, `Page.Formed.remove` — one row more or less, everything else as before.
* `Page.Formed.insert_first`, `Page.Formed.remove_cases` — when a row can be put in or taken away, and
  in which slot.
-/

set_option autoImplicit false
namespace TableStore
namespace Page

/-- A page for `size` bytes with rows of a schema: exactly the used slots hold rows, of the right
types, which know their places. -/
structure Formed (size : PageSize) (schema : Schema) (p : Page) : Prop where
  schema_eq : p.schema = schema
  size_eq : p.size = size.bytes
  length_slots : p.slots.length = slotCount size.bytes schema.rowSize
  length_bitmap : p.bitmap.length = bitmapLength (slotCount size.bytes schema.rowSize)
  used : ∀ i, p.bitmap.bit i = (p.row? i).isSome
  typed : ∀ i r, p.row? i = some r → r.types = schema.types
  placed : ∀ i r, p.row? i = some r → r.rid = some ⟨p.id, i⟩

variable {size : PageSize} {schema : Schema} {p q : Page}

/-- Who has changed a page, and what it was before, is no matter of its form. -/
theorem Formed.marked (h : p.Formed size schema) (dirtier : Option TxnId) (beforeImage : Bytes) :
    { p with dirtier, beforeImage }.Formed size schema :=
  ⟨h.schema_eq, h.size_eq, h.length_slots, h.length_bitmap, h.used, h.typed, h.placed⟩

/-! ## The name of a page -/

/-- A page that comes from bytes bears the name that it was asked for by, and is clean. -/
theorem of_decode {id : PageId} {data : Bytes} (h : decode size id schema data = .ok p) :
    p.id = id ∧ p.dirtier = none := by
  rw [decode] at h
  split at h
  · cases h
  · dsimp only at h
    split at h
    · cases h
    · split at h
      · cases h
      · cases h
        exact ⟨rfl, rfl⟩

/-- The before-image of a page that comes from bytes is those bytes. -/
theorem beforeImage_of_decode {id : PageId} {data : Bytes}
    (h : decode size id schema data = .ok p) : p.beforeImage = data := by
  rw [decode] at h
  split at h
  · cases h
  · dsimp only at h
    split at h
    · cases h
    · split at h
      · cases h
      · cases h
        rfl

/-- Only the bitmap and the slots change when a row is put in. -/
theorem insert_rest {row placed : Row} (h : p.insert row = .ok (q, placed)) :
    q = { p with bitmap := q.bitmap, slots := q.slots } := by
  rw [Page.insert] at h
  split at h
  · cases h
  · split at h
    · cases h
    · cases h
      rfl

/-- Only the bitmap and the slots change when a row is taken away. -/
theorem remove_rest {row bare : Row} (h : p.remove row = .ok (q, bare)) :
    q = { p with bitmap := q.bitmap, slots := q.slots } := by
  rw [Page.remove] at h
  split at h
  · cases h
  · split at h
    · cases h
    · split at h
      · cases h
      · cases h
        rfl

theorem insert_id {row placed : Row} (h : p.insert row = .ok (q, placed)) : q.id = p.id := by
  rw [insert_rest h]

theorem remove_id {row bare : Row} (h : p.remove row = .ok (q, bare)) : q.id = p.id := by
  rw [remove_rest h]

theorem insert_beforeImage {row placed : Row} (h : p.insert row = .ok (q, placed)) :
    q.beforeImage = p.beforeImage := by
  rw [insert_rest h]

theorem remove_beforeImage {row bare : Row} (h : p.remove row = .ok (q, bare)) :
    q.beforeImage = p.beforeImage := by
  rw [remove_rest h]

/-! ## Layout

Each slot takes its row and one bit.  The bits stand before the slots and are rounded up to whole
bytes, so there may be bits that stand for no slot. -/

/-- The bitmap and the slots fit on a page. -/
theorem layout_le (size rowSize : Nat) :
    bitmapLength (slotCount size rowSize) + slotCount size rowSize * rowSize ≤ size := by
  have h := Nat.div_mul_le_self (size * 8) (rowSize * 8 + 1)
  rw [← slotCount, Nat.mul_succ, ← Nat.mul_assoc] at h
  rw [bitmapLength]
  omega

/-- There is a bit for each slot. -/
theorem le_bits (slots : Nat) : slots ≤ 8 * bitmapLength slots := by
  rw [bitmapLength]
  omega

theorem bit_of_length_le {b : Bytes} {i : Nat} (h : b.length * 8 ≤ i) : b.bit i = false := by
  have hn : b.length ≤ i / 8 := (Nat.le_div_iff_mul_le (by decide)).2 h
  rw [Bytes.bit, List.getD_eq_getElem?_getD, List.getElem?_eq_none hn]
  exact Nat.zero_testBit _

theorem bit_zeros (n i : Nat) : (Bytes.zeros n).bit i = false := by
  have hz : (Bytes.zeros n)[i / 8]?.getD 0 = 0 := by
    rw [Bytes.zeros, List.getElem?_replicate]
    split <;> rfl
  rw [Bytes.bit, List.getD_eq_getElem?_getD, hz]
  exact Nat.zero_testBit _

/-- No bit is set that stands for no slot. -/
theorem strayBit?_eq_none_iff {bitmap : Bytes} {slots : Nat} :
    strayBit? bitmap slots = none ↔ ∀ i, slots ≤ i → bitmap.bit i = false := by
  rw [strayBit?, List.find?_eq_none]
  constructor
  · intro h i hi
    rcases Nat.lt_or_ge i (bitmap.length * 8) with hlt | hge
    · have hm := h i (List.mem_range'_1.2 ⟨hi, by omega⟩)
      simpa using hm
    · exact bit_of_length_le hge
  · intro h i hi
    rw [h i (List.mem_range'_1.1 hi).1]
    exact Bool.false_ne_true

theorem row?_of_length_le {i : Nat} (h : p.slots.length ≤ i) : p.row? i = none := by
  rw [row?, List.getElem?_eq_none h]
  rfl

theorem row?_of_lt {i : Nat} (h : i < p.slots.length) : p.row? i = p.slots[i] := by
  rw [row?, List.getElem?_eq_getElem h]
  rfl

theorem row?_eq_some_iff {i : Nat} {r : Row} : p.row? i = some r ↔ p.slots[i]? = some (some r) := by
  rw [row?, Option.join_eq_some_iff]

theorem mem_rows {r : Row} : r ∈ p.rows ↔ ∃ i, p.row? i = some r := by
  rw [rows, List.mem_filterMap]
  constructor
  · rintro ⟨slot, hslot, rfl⟩
    obtain ⟨i, hi⟩ := List.mem_iff_getElem?.1 hslot
    exact ⟨i, row?_eq_some_iff.2 hi⟩
  · rintro ⟨i, hi⟩
    exact ⟨some r, List.mem_iff_getElem?.2 ⟨i, row?_eq_some_iff.1 hi⟩, rfl⟩

/-- No row is on a page twice, since each knows its place. -/
theorem Formed.nodup_rows (h : p.Formed size schema) : p.rows.Nodup := by
  rw [rows, List.Nodup, List.pairwise_filterMap, List.pairwise_iff_getElem]
  intro i j hi hj hij row hrow row' hrow' he
  have hplace := h.placed i row ((row?_of_lt hi).trans hrow)
  have hplace' := h.placed j row' ((row?_of_lt hj).trans hrow')
  rw [he, hplace'] at hplace
  cases hplace
  exact absurd hij (Nat.lt_irrefl _)

/-! ## Bytes -/

theorem Formed.slotsFormed (h : p.Formed size schema) :
    SlotsFormed p.id schema p.bitmap 0 p.slots where
  used j hj := by rw [Nat.zero_add, h.used, row?_of_lt hj]
  typed j r hr := h.typed j r (row?_eq_some_iff.2 hr)
  placed j r hr := by rw [Nat.zero_add, h.placed j r (row?_eq_some_iff.2 hr)]

theorem length_flatMap_encodeSlot {id : PageId} {bitmap : Bytes} {i : Nat}
    {slots : List (Option Row)} (h : SlotsFormed id schema bitmap i slots) :
    (slots.flatMap (encodeSlot schema.rowSize)).length = slots.length * schema.rowSize := by
  induction slots generalizing i with
  | nil => rw [List.flatMap_nil, List.length_nil, List.length_nil, Nat.zero_mul]
  | cons slot slots ih =>
    rw [List.flatMap_cons, List.length_append, length_encodeSlot h List.mem_cons_self, ih h.tail,
      List.length_cons, Nat.succ_mul, Nat.add_comm]

/-- The bytes of a well-formed page are its bitmap, its slots and zeros. -/
theorem Formed.encode_eq (h : p.Formed size schema) :
    ∃ rest, p.encode = p.bitmap ++ (p.slots.flatMap (encodeSlot schema.rowSize) ++ rest) := by
  have hlen := length_flatMap_encodeSlot h.slotsFormed
  have hle := layout_le size.bytes schema.rowSize
  rw [← h.length_bitmap, ← h.length_slots, ← hlen, ← List.length_append, ← h.size_eq] at hle
  rw [encode, h.schema_eq, Bytes.resize, List.take_of_length_le hle, List.append_assoc]
  exact ⟨_, rfl⟩

/-- **A well-formed page is read back from its bytes**: clean, with its rows cut to what is stored
and everything else as it was. -/
theorem Formed.decode_encode_eq (h : p.Formed size schema) :
    decode size p.id schema p.encode = .ok
      { id := p.id, schema, size := size.bytes, bitmap := p.bitmap,
        slots := p.slots.map (Option.map Row.stored), dirtier := none, beforeImage := p.encode } := by
  obtain ⟨rest, he⟩ := h.encode_eq
  have hlen : p.encode.length = size.bytes := (length_encode p).trans h.size_eq
  have hstray : strayBit? p.bitmap (slotCount size.bytes schema.rowSize) = none :=
    strayBit?_eq_none_iff.2 fun i hi => by
      rw [h.used, row?_of_length_le (h.length_slots ▸ hi)]
      rfl
  have hslots := decodeSlots_encode h.slotsFormed rest
  rw [h.length_slots] at hslots
  rw [decode, if_neg (not_not_intro hlen), he]
  dsimp only
  rw [List.take_left' h.length_bitmap, List.drop_left' h.length_bitmap, hstray, hslots]

theorem Formed.decode_encode (h : p.Formed size schema) :
    ∃ q, decode size p.id schema p.encode = .ok q ∧ ∀ i, q.row? i = (p.row? i).map Row.stored := by
  refine ⟨_, h.decode_encode_eq, fun i => ?_⟩
  simp only [row?, List.getElem?_map]
  cases p.slots[i]? with
  | none => rfl
  | some slot => rfl

/-- A page that comes from bytes is well-formed, and not cut when it is stored. -/
theorem formed_of_decode {id : PageId} {data : Bytes} (h : decode size id schema data = .ok p) :
    p.Formed size schema ∧ ∀ i, (p.row? i).map Row.stored = p.row? i := by
  rw [decode] at h
  split at h
  · cases h
  · rename_i hlen
    dsimp only at h
    split at h
    · cases h
    · rename_i hstray
      split at h
      · cases h
      · rename_i slots hslots
        cases h
        obtain ⟨hn, hf, hs⟩ := of_decodeSlots hslots
        have hle := layout_le size.bytes schema.rowSize
        have hdata : data.length = size.bytes := Decidable.not_not.1 hlen
        refine ⟨⟨rfl, rfl, hn, ?_, fun i => ?_, fun i r hr => ?_, fun i r hr => ?_⟩, fun i => ?_⟩
        · exact List.length_take_of_le (by omega)
        · rcases Nat.lt_or_ge i slots.length with hi | hi
          · rw [row?_of_lt hi]
            have := hf.used i hi
            rwa [Nat.zero_add] at this
          · rw [row?_of_length_le hi]
            exact strayBit?_eq_none_iff.1 hstray i (hn ▸ hi)
        · exact hf.typed i r (row?_eq_some_iff.1 hr)
        · have := hf.placed i r (row?_eq_some_iff.1 hr)
          rwa [Nat.zero_add] at this
        · have hi := congrArg (fun l => l[i]?.join) hs
          simp only [List.getElem?_map] at hi
          rw [row?]
          refine Eq.trans ?_ hi
          cases slots[i]? with
          | none => rfl
          | some slot => rfl

/-! ## A page without rows -/

theorem formed_empty (size : PageSize) (id : PageId) (schema : Schema) :
    (empty size id schema).Formed size schema ∧ ∀ i, (empty size id schema).row? i = none := by
  have hrow : ∀ i, (empty size id schema).row? i = none := fun i => by
    rw [row?, empty, snapshot, List.getElem?_replicate]
    split <;> rfl
  refine ⟨⟨rfl, rfl, List.length_replicate, Bytes.length_zeros _, fun i => ?_, fun i r hr => ?_,
    fun i r hr => ?_⟩, hrow⟩
  · rw [hrow]
    exact bit_zeros _ i
  · rw [hrow] at hr
    cases hr
  · rw [hrow] at hr
    cases hr

/-- The bytes of a page without rows are zeros. -/
theorem encode_empty (size : PageSize) (id : PageId) (schema : Schema) :
    (empty size id schema).encode = zeroed size := by
  refine List.eq_replicate_iff.2 ⟨length_encode _, fun x hx => ?_⟩
  have hslot : ∀ slot ∈ (empty size id schema).slots, slot = none :=
    fun slot hs => List.eq_of_mem_replicate hs
  rw [encode, Bytes.resize, List.mem_append] at hx
  rcases hx with hx | hx
  · rcases List.mem_append.1 (List.mem_of_mem_take hx) with hx | hx
    · exact List.eq_of_mem_replicate hx
    · obtain ⟨slot, hs, hx⟩ := List.mem_flatMap.1 hx
      rw [hslot slot hs] at hx
      exact List.eq_of_mem_replicate hx
  · exact List.eq_of_mem_replicate hx

/-- A page of zeros is the one without rows. -/
theorem decode_zeroed_eq (size : PageSize) (id : PageId) (schema : Schema) :
    decode size id schema (zeroed size) = .ok (empty size id schema) := by
  have hread := (formed_empty size id schema).1.decode_encode_eq
  have hslots : (empty size id schema).slots.map (Option.map Row.stored) =
      (empty size id schema).slots := List.map_replicate
  rw [encode_empty, hslots] at hread
  refine hread.trans (congrArg Except.ok ?_)
  rw [← encode_empty size id schema]
  rfl

/-- A page of zeros has no rows. -/
theorem decode_zeroed (size : PageSize) (id : PageId) (schema : Schema) :
    ∃ q, decode size id schema (zeroed size) = .ok q ∧ ∀ i, q.row? i = none :=
  ⟨_, decode_zeroed_eq size id schema, (formed_empty size id schema).2⟩

/-! ## Changing rows

A slot and its bit are changed together.  In between a page would not be well-formed, so this is one
step. -/

theorem row?_set {x : Option Row} {i : Nat} (hi : i < p.slots.length) (b : Bytes) (j : Nat) :
    { p with bitmap := b, slots := p.slots.set i x }.row? j = if j = i then x else p.row? j := by
  rw [row?, row?, List.getElem?_set]
  by_cases hj : j = i
  · rw [if_pos hj.symm, if_pos hj, if_pos hi]
    rfl
  · rw [if_neg (Ne.symm hj), if_neg hj]

/-- Filling or emptying a slot together with its bit. -/
theorem Formed.set (h : p.Formed size schema) {i : Nat} (hi : i < p.slots.length) {x : Option Row}
    {on : Bool} (hon : on = x.isSome)
    (hx : ∀ r, x = some r → r.types = schema.types ∧ r.rid = some ⟨p.id, i⟩) :
    { p with bitmap := p.bitmap.setBit i on, slots := p.slots.set i x }.Formed size schema where
  schema_eq := h.schema_eq
  size_eq := h.size_eq
  length_slots := List.length_set.trans h.length_slots
  length_bitmap := (Bytes.length_setBit _ _ _).trans h.length_bitmap
  used j := by
    have hb : i < 8 * p.bitmap.length := by
      rw [h.length_bitmap]
      exact Nat.lt_of_lt_of_le (h.length_slots ▸ hi) (le_bits _)
    refine (Bytes.bit_setBit hb _ j).trans ?_
    rw [row?_set hi]
    split
    · exact hon
    · exact h.used j
  typed j r hr := by
    rw [row?_set hi] at hr
    split at hr
    · exact (hx r hr).1
    · exact h.typed j r hr
  placed j r hr := by
    rw [row?_set hi] at hr
    split at hr
    · rename_i he
      rw [he]
      exact (hx r hr).2
    · exact h.placed j r hr

/-- A row is put into a free slot. -/
theorem Formed.insert (h : p.Formed size schema) {row placed : Row}
    (hi : p.insert row = .ok (q, placed)) :
    q.Formed size schema ∧ ∃ i, placed = { row with rid := some ⟨p.id, i⟩ } ∧ p.row? i = none ∧
      ∀ j, q.row? j = if j = i then some placed else p.row? j := by
  rw [Page.insert] at hi
  split at hi
  · cases hi
  · rename_i ht
    split at hi
    · cases hi
    · rename_i i hfree
      cases hi
      have hmem := List.mem_of_head? hfree
      rw [freeSlots, List.mem_filter, List.mem_range, h.used] at hmem
      obtain ⟨hlt, hnone⟩ := hmem
      have htypes : row.types = schema.types := h.schema_eq ▸ Decidable.not_not.1 ht
      refine ⟨h.set hlt rfl fun r hr => ?_, i, rfl, by simpa using hnone, row?_set hlt _⟩
      cases hr
      exact ⟨htypes, rfl⟩

/-- A row is taken away from the slot that its record id names. -/
theorem Formed.remove (h : p.Formed size schema) {row bare : Row}
    (hr : p.remove row = .ok (q, bare)) :
    q.Formed size schema ∧ ∃ r old, row.rid = some r ∧ r.page = p.id ∧ p.row? r.slot = some old ∧
      ∀ j, q.row? j = if j = r.slot then none else p.row? j := by
  rw [Page.remove] at hr
  split at hr
  · cases hr
  · rename_i r hrid
    split at hr
    · cases hr
    · rename_i hp
      split at hr
      · cases hr
      · rename_i hused
        cases hr
        rw [isUsed, h.used] at hused
        simp only [Bool.not_eq_true, Bool.not_eq_false', Bool.and_eq_true, decide_eq_true_eq,
          Option.isSome_iff_exists] at hused
        obtain ⟨hlt, old, hold⟩ := hused
        exact ⟨h.set hlt rfl (fun _ hr => by cases hr), r, old, hrid, Decidable.not_not.1 hp, hold,
          row?_set hlt _⟩

/-! ## Free slots -/

theorem Formed.freeSlots_eq_nil_iff (h : p.Formed size schema) :
    p.freeSlots = [] ↔ ∀ i, i < p.slots.length → p.row? i ≠ none := by
  rw [freeSlots, List.filter_eq_nil_iff]
  refine forall_congr' fun i => ?_
  rw [List.mem_range, capacity, h.used]
  cases p.row? i <;> simp

/-- A row that fits is put into the first free slot. -/
theorem Formed.insert_first (h : p.Formed size schema) {row : Row} (ht : row.types = schema.types)
    (hn : p.freeSlots ≠ []) :
    ∃ i copy, p.insert row = .ok (copy, { row with rid := some ⟨p.id, i⟩ }) ∧
      i < p.slots.length ∧ p.row? i = none ∧ (∀ j, j < i → p.row? j ≠ none) ∧
      ∀ j, copy.row? j = if j = i then some { row with rid := some ⟨p.id, i⟩ } else p.row? j := by
  obtain ⟨i, hi⟩ : ∃ i, p.freeSlots.head? = some i := ⟨_, List.head?_eq_some_head hn⟩
  have hfind := hi
  rw [freeSlots, List.head?_filter, List.find?_range_eq_some] at hfind
  obtain ⟨hfree, hlt, hfirst⟩ := hfind
  rw [List.mem_range] at hlt
  refine ⟨i, _, ?_, hlt, ?_, fun j hj => ?_,
    row?_set hlt (p.bitmap.setBit i true)⟩
  · rw [Page.insert, if_neg (by rw [h.schema_eq]; exact not_not_intro ht), hi]
  · rw [h.used] at hfree
    simpa using hfree
  · have := hfirst j hj
    rw [h.used] at this
    intro he
    rw [he] at this
    cases this

/-- A row is taken away from a slot that holds one. -/
theorem Formed.remove_cases (h : p.Formed size schema) {row : Row} {i : Nat}
    (hr : row.rid = some ⟨p.id, i⟩) :
    p.row? i = none ∧ p.remove row = .error (.slotEmpty p.id i) ∨
    p.row? i ≠ none ∧ ∃ copy, p.remove row = .ok (copy, { row with rid := none }) ∧
      ∀ j, copy.row? j = if j = i then none else p.row? j := by
  have hused : p.isUsed i = true ↔ p.row? i ≠ none := by
    rw [isUsed, h.used, Bool.and_eq_true, decide_eq_true_eq, Option.isSome_iff_ne_none]
    refine ⟨And.right, fun hi => ⟨Nat.lt_of_not_le fun hle => hi (row?_of_length_le hle), hi⟩⟩
  rw [Page.remove, hr]
  dsimp only
  rw [if_neg (not_not_intro rfl)]
  by_cases hi : p.row? i = none
  · left
    refine ⟨hi, if_pos ?_⟩
    rw [Bool.not_eq_true']
    exact Bool.eq_false_iff.2 fun hu => hused.1 hu hi
  · right
    have hlt : i < p.slots.length := Nat.lt_of_not_le fun hle => hi (row?_of_length_le hle)
    refine ⟨hi, _, if_neg ?_, row?_set hlt (p.bitmap.setBit i false)⟩
    rw [hused.2 hi]
    exact Bool.false_ne_true

end Page
end TableStore
