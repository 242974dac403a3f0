import TableStore.Proofs.Page.Formed

/-!
# The format of a page

Which byte strings are pages can be said without decoding them: by their length, by the bits of the
bitmap that stand for no slot, and by the texts in the slots that are in use.

## What is here

* `Bytes.LengthAt`, `Bytes.TextAt` — the length of a text stands at a place; a whole text does.
* `Page.slotStart`, `Page.fieldStart` — where slots and the fields of their rows begin.
* `Page.Format` — the byte strings that are pages, and `Page.decode_isOk`, that these are the ones
  that `Page.decode` accepts.
* `Page.decode_error` — every other string is refused with the page's name.
-/

set_option autoImplicit false
namespace TableStore

/-! ## Words -/

namespace Bytes

theorem testBit_byte (x : UInt8) {i : Nat} (h : 8 ≤ i) : x.toNat.testBit i = false :=
  Nat.testBit_lt_two_pow (Nat.lt_of_lt_of_le x.toNat_lt (Nat.pow_le_pow_right (by decide) h))

/-- A word that was put together from four bytes has these bytes. -/
theorem ofWord_bytes (a b c d : UInt8) :
    ofWord (a.toUInt32 <<< 24 ||| b.toUInt32 <<< 16 ||| c.toUInt32 <<< 8 ||| d.toUInt32) =
      [a, b, c, d] := by
  have h24 : (24 : UInt32).toNat % 32 = 24 := rfl
  have h16 : (16 : UInt32).toNat % 32 = 16 := rfl
  have h8 : (8 : UInt32).toNat % 32 = 8 := rfl
  simp only [ofWord, List.cons.injEq, and_true, ← UInt8.toNat_inj, UInt32.toNat_toUInt8,
    UInt32.toNat_shiftRight, UInt32.toNat_or, UInt32.toNat_shiftLeft, UInt8.toNat_toUInt32,
    h24, h16, h8]
  refine ⟨?_, ?_, ?_, ?_⟩ <;> refine Nat.eq_of_testBit_eq fun i => ?_ <;>
    simp only [Nat.testBit_or, Nat.testBit_mod_two_pow, Nat.testBit_shiftLeft,
      Nat.testBit_shiftRight]
  -- a bit of one byte is a bit of one of the four: the others end below it or begin above it
  all_goals
    by_cases h : i < 8
    · simp (disch := omega) [h, testBit_byte, show 24 + i < 32 by omega, show 16 + i < 32 by omega,
        show 8 + i < 32 by omega, show i < 32 by omega, show ¬ 24 ≤ 16 + i by omega,
        show ¬ 24 ≤ 8 + i by omega, show ¬ 16 ≤ 8 + i by omega, show ¬ 24 ≤ i by omega,
        show ¬ 16 ≤ i by omega, show ¬ 8 ≤ i by omega]
    · simp (disch := omega) [h, testBit_byte]

theorem word?_eq_some_iff {b : Bytes} {w : UInt32} : word? b = some w ↔ b.take 4 = ofWord w := by
  constructor
  · intro h
    match b, h with
    | a :: b :: c :: d :: _, h =>
      simp only [word?, Option.some.injEq] at h
      rw [← h, ofWord_bytes]
      rfl
  · intro h
    rw [← List.take_append_drop 4 b, h, word?_ofWord]

/-! ## Texts

The bytes of a field that follow its text are not looked at.  So a field has many forms, and the
format only says what has to stand at its beginning. -/

variable {b : Bytes} {start n : Nat}

theorem slice_drop (b : Bytes) (k start n : Nat) :
    slice (b.drop k) start n = b.slice (k + start) n := by
  rw [slice, slice, List.drop_drop]

/-- The length of a text stands at `start`: the word there is `n`, which is in range. -/
def LengthAt (b : Bytes) (start n : Nat) : Prop :=
  n ≤ textCapacity ∧ b.slice start 4 = ofWord (UInt32.ofNat n)

/-- A text stands at `start`: a length in range, and after it as many bytes of valid UTF-8. -/
def TextAt (b : Bytes) (start : Nat) : Prop :=
  ∃ n s, b.LengthAt start n ∧ b.slice (start + 4) n = Utf8.encode s

theorem lengthAt_drop {k : Nat} : LengthAt (b.drop k) start n ↔ b.LengthAt (k + start) n := by
  rw [LengthAt, LengthAt, slice_drop]

theorem textAt_drop {k : Nat} : TextAt (b.drop k) start ↔ b.TextAt (k + start) := by
  simp only [TextAt, lengthAt_drop, slice_drop, Nat.add_assoc]

theorem toNat_ofNat_of_le {n : Nat} (h : n ≤ textCapacity) : (UInt32.ofNat n).toNat = n :=
  UInt32.toNat_ofNat_of_lt' (Nat.lt_of_le_of_lt h (by decide))

theorem LengthAt.unique {m : Nat} (hm : b.LengthAt start m) (hn : b.LengthAt start n) : m = n := by
  have hw : word? (ofWord (UInt32.ofNat m)) = word? (ofWord (UInt32.ofNat n)) := by
    rw [← hm.2, ← hn.2]
  rw [← List.append_nil (ofWord _), word?_ofWord, ← List.append_nil (ofWord _), word?_ofWord] at hw
  rw [← toNat_ofNat_of_le hm.1, ← toNat_ofNat_of_le hn.1, Option.some.inj hw]

end Bytes

/-! ## Fields -/

namespace FieldType

variable {b : Bytes} {t : FieldType} {ts : List FieldType} {v : Value}

theorem decode_int_iff :
    int.decode b = .ok v ↔ int.size ≤ b.length ∧ ∃ w : UInt32, b.slice 0 4 = Bytes.ofWord w ∧
      v = .int w.toInt32 := by
  rw [decode.eq_def]
  by_cases hlen : b.length < int.size
  · simp [hlen, Nat.not_le.2 hlen]
  · rw [if_neg hlen]
    simp only [Bytes.slice, List.drop_zero, ← Bytes.word?_eq_some_iff, Nat.not_lt.1 hlen, true_and]
    cases Bytes.word? b with
    | none => simp
    | some w => simp [eq_comm]

theorem decode_text_iff :
    text.decode b = .ok v ↔ text.size ≤ b.length ∧ ∃ n s, b.LengthAt 0 n ∧
      b.slice 4 n = Utf8.encode s ∧ v = .text s := by
  rw [decode.eq_def]
  by_cases hlen : b.length < text.size
  · simp [hlen, Nat.not_le.2 hlen]
  · rw [if_neg hlen]
    simp only [Bytes.LengthAt, Bytes.slice, List.drop_zero, ← Bytes.word?_eq_some_iff,
      ← Utf8.decode?_eq_some_iff, Nat.not_lt.1 hlen, true_and]
    cases hw : Bytes.word? b with
    | none => simp
    | some w =>
      dsimp only
      constructor
      · intro h
        split at h
        · cases h
        · rename_i hcap
          split at h
          · rename_i s hs
            cases h
            exact ⟨w.toNat, s, ⟨Nat.not_lt.1 hcap, by rw [UInt32.ofNat_toNat]⟩, hs, rfl⟩
          · cases h
      · rintro ⟨n, s, ⟨hcap, hn⟩, hs, rfl⟩
        obtain rfl := Option.some.inj hn
        rw [Bytes.toNat_ofNat_of_le hcap, if_neg (Nat.not_lt.2 hcap), hs]

/-- A field of a type can be read if it is a number, or a text stands there. -/
theorem decode_isOk (h : t.size ≤ b.length) :
    (∃ v, t.decode b = .ok v) ↔ (t = .text → b.TextAt 0) := by
  cases t with
  | int =>
    refine iff_of_true ?_ (fun ht => by cases ht)
    have hlen : (b.slice 0 4).length = 4 := List.length_take_of_le h
    match hb : b.slice 0 4, hlen with
    | [x, y, z, w], _ =>
      exact ⟨_, decode_int_iff.2 ⟨h, _, by rw [hb, ← Bytes.ofWord_bytes], rfl⟩⟩
  | text =>
    simp only [decode_text_iff, h, true_and, forall_const]
    constructor
    · rintro ⟨v, n, s, hn, hs, -⟩
      exact ⟨n, s, hn, hs⟩
    · rintro ⟨n, s, hn, hs⟩
      exact ⟨_, n, s, hn, hs, rfl⟩

/-- Only the bytes of the field are looked at. -/
theorem decode_take {n : Nat} (h : t.size ≤ n) : t.decode (b.take n) = t.decode b := by
  have hfour : 4 ≤ n := Nat.le_trans (by cases t <;> decide) h
  have hword : Bytes.word? (b.take n) = Bytes.word? b := by
    refine Option.ext fun w => ?_
    rw [Bytes.word?_eq_some_iff, Bytes.word?_eq_some_iff, List.take_take, Nat.min_eq_left hfour]
  have hlen : (b.take n).length < t.size ↔ b.length < t.size := by
    rw [List.length_take]
    omega
  rw [decode.eq_def, decode.eq_def, hword]
  simp only [hlen]
  split
  · rfl
  · cases Bytes.word? b with
    | none => rfl
    | some w =>
      cases t with
      | int => rfl
      | text =>
        dsimp only
        split
        · rfl
        · rename_i hcap
          have hslice : Bytes.slice (b.take n) 4 w.toNat = b.slice 4 w.toNat := by
            simp only [size] at h
            rw [Bytes.slice, Bytes.slice, List.drop_take, List.take_take, Nat.min_eq_left (by omega)]
          rw [hslice]

theorem totalSize_take_le {j : Nat} (h : ts[j]? = some t) :
    totalSize (ts.take j) + t.size ≤ totalSize ts := by
  induction ts generalizing j with
  | nil => cases h
  | cons u ts ih =>
    cases j with
    | zero =>
      cases h
      simp [totalSize]
    | succ j =>
      have := ih (j := j) (by rwa [List.getElem?_cons_succ] at h)
      rw [List.take_succ_cons, totalSize, totalSize]
      omega

end FieldType

/-! ## Rows and slots

The slots have fixed places, so slots that are not used are passed over whatever they hold.  The
first slot that cannot be read decides about the whole page. -/

namespace Page

variable {id : PageId} {schema : Schema} {bitmap b d : Bytes} {ts : List FieldType}

/-- Only the bytes of the row are looked at. -/
theorem decodeValues_take {n : Nat} (h : FieldType.totalSize ts ≤ n) :
    decodeValues ts (b.take n) = decodeValues ts b := by
  induction ts generalizing b n with
  | nil => rfl
  | cons t ts ih =>
    rw [FieldType.totalSize] at h
    rw [decodeValues, decodeValues, FieldType.decode_take (by omega), List.drop_take,
      ih (by omega)]

theorem decodeValues_isOk (h : FieldType.totalSize ts ≤ b.length) :
    (∃ vs, decodeValues ts b = .ok vs) ↔
      ∀ j, ts[j]? = some .text → b.TextAt (FieldType.totalSize (ts.take j)) := by
  induction ts generalizing b with
  | nil => exact iff_of_true ⟨[], rfl⟩ fun j hj => by cases hj
  | cons t ts ih =>
    rw [FieldType.totalSize] at h
    have htail := ih (b := b.drop t.size) (by rw [List.length_drop]; omega)
    have hhead := FieldType.decode_isOk (t := t) (b := b) (by omega)
    rw [decodeValues]
    constructor
    · rintro ⟨vs, hvs⟩ j hj
      split at hvs
      · cases hvs
      · rename_i v hv
        split at hvs
        · cases hvs
        · rename_i ws hws
          cases j with
          | zero => exact hhead.1 ⟨v, hv⟩ (Option.some.inj hj)
          | succ j =>
            rw [List.getElem?_cons_succ] at hj
            exact Bytes.textAt_drop.1 (htail.1 ⟨ws, hws⟩ j hj)
    · intro hall
      obtain ⟨v, hv⟩ := hhead.2 fun ht => hall 0 (by rw [ht]; rfl)
      obtain ⟨ws, hws⟩ := htail.2 fun j hj =>
        Bytes.textAt_drop.2 (hall (j + 1) (by rwa [List.getElem?_cons_succ]))
      exact ⟨v :: ws, by rw [hv, hws]⟩

theorem decodeSlots_succ_isOk {i n : Nat} :
    (∃ slots, decodeSlots id schema bitmap i (n + 1) b = .ok slots) ↔
      (bitmap.bit i = true → ∃ vs, decodeValues schema.types b = .ok vs) ∧
        ∃ slots, decodeSlots id schema bitmap (i + 1) n (b.drop schema.rowSize) = .ok slots := by
  rw [decodeSlots, decodeValues_take (Nat.le_refl schema.rowSize)]
  cases bitmap.bit i <;> cases decodeValues schema.types b <;>
    cases decodeSlots id schema bitmap (i + 1) n (b.drop schema.rowSize) <;> simp

/-- Where the field of a column begins in a row. -/
def fieldOffset (schema : Schema) (j : Nat) : Nat := FieldType.totalSize (schema.types.take j)

/-- Slots can be read if texts stand where the used ones have them. -/
theorem decodeSlots_isOk {i n : Nat} (h : n * schema.rowSize ≤ b.length) :
    (∃ slots, decodeSlots id schema bitmap i n b = .ok slots) ↔
      ∀ m, m < n → bitmap.bit (i + m) = true → ∀ j, schema.types[j]? = some .text →
        b.TextAt (m * schema.rowSize + fieldOffset schema j) := by
  induction n generalizing i b with
  | zero => exact iff_of_true ⟨[], rfl⟩ fun m hm => absurd hm (Nat.not_lt_zero m)
  | succ n ih =>
    rw [Nat.succ_mul] at h
    rw [decodeSlots_succ_isOk, decodeValues_isOk (by rw [← Schema.rowSize]; omega),
      ih (by rw [List.length_drop]; omega)]
    constructor
    · rintro ⟨hfirst, hrest⟩ m hm hbit j hj
      cases m with
      | zero =>
        rw [Nat.zero_mul, Nat.zero_add]
        exact hfirst hbit j hj
      | succ m =>
        have htext := hrest m (by omega) (by rwa [Nat.add_right_comm, Nat.add_assoc]) j hj
        rwa [Bytes.textAt_drop, ← Nat.add_assoc, Nat.add_comm schema.rowSize,
          ← Nat.succ_mul] at htext
    · intro hall
      refine ⟨fun hbit j hj => ?_, fun m hm hbit j hj => ?_⟩
      · have htext := hall 0 (Nat.succ_pos n) hbit j hj
        rwa [Nat.zero_mul, Nat.zero_add] at htext
      · rw [Nat.add_right_comm, Nat.add_assoc] at hbit
        have htext := hall (m + 1) (by omega) hbit j hj
        rwa [Bytes.textAt_drop, ← Nat.add_assoc, Nat.add_comm schema.rowSize, ← Nat.succ_mul]

theorem decodeSlots_error {i n : Nat} {e : Error}
    (h : decodeSlots id schema bitmap i n b = .error e) : ∃ c, e = .corruptPage id c := by
  induction n generalizing i b with
  | zero => cases h
  | succ n ih =>
    rw [decodeSlots] at h
    split at h
    · rename_i hslot
      split at hslot
      · split at hslot
        · cases hslot
          cases h
          exact ⟨_, rfl⟩
        · cases hslot
      · cases hslot
    · split at h
      · rename_i hrest
        cases h
        exact ih hrest
      · cases h

/-! ## Pages -/

variable {size : PageSize}

/-- Where a slot begins on a page. -/
def slotStart (size : PageSize) (schema : Schema) (i : Nat) : Nat :=
  bitmapLength (slotCount size.bytes schema.rowSize) + i * schema.rowSize

/-- Where the field of a column begins in a slot of a page. -/
def fieldStart (size : PageSize) (schema : Schema) (i j : Nat) : Nat :=
  slotStart size schema i + fieldOffset schema j

/-- The byte strings that are pages: as long as a page, without a bit for a slot that does not
exist, and with a text wherever a used slot has one. -/
structure Format (size : PageSize) (schema : Schema) (d : Bytes) : Prop where
  length_eq : d.length = size.bytes
  spare : ∀ i, slotCount size.bytes schema.rowSize ≤ i →
    i < 8 * bitmapLength (slotCount size.bytes schema.rowSize) → d.bit i = false
  texts : ∀ i, i < slotCount size.bytes schema.rowSize → d.bit i = true →
    ∀ j, schema.types[j]? = some .text → d.TextAt (fieldStart size schema i j)

theorem bit_take {n i : Nat} (h : i < 8 * n) : Bytes.bit (d.take n) i = d.bit i := by
  rw [Bytes.bit, Bytes.bit, List.getD_eq_getElem?_getD, List.getD_eq_getElem?_getD,
    List.getElem?_take_of_lt (by omega)]

theorem decode_ok_iff {p : Page} : decode size id schema d = .ok p ↔
    d.length = size.bytes ∧
      (∀ i, slotCount size.bytes schema.rowSize ≤ i →
        i < 8 * bitmapLength (slotCount size.bytes schema.rowSize) → d.bit i = false) ∧
      ∃ slots, decodeSlots id schema (d.take (bitmapLength (slotCount size.bytes schema.rowSize)))
          0 (slotCount size.bytes schema.rowSize) (d.drop (slotStart size schema 0)) = .ok slots ∧
        p =
          { id, schema, size := size.bytes
            bitmap := d.take (bitmapLength (slotCount size.bytes schema.rowSize))
            slots, dirtier := none, beforeImage := d } := by
  have hstart : slotStart size schema 0 = bitmapLength (slotCount size.bytes schema.rowSize) := by
    rw [slotStart, Nat.zero_mul, Nat.add_zero]
  rw [decode, hstart]
  by_cases hlen : d.length = size.bytes
  · have hle := layout_le size.bytes schema.rowSize
    have hspare : strayBit? (d.take (bitmapLength (slotCount size.bytes schema.rowSize)))
          (slotCount size.bytes schema.rowSize) = none ↔
        ∀ i, slotCount size.bytes schema.rowSize ≤ i →
          i < 8 * bitmapLength (slotCount size.bytes schema.rowSize) → d.bit i = false := by
      rw [strayBit?_eq_none_iff]
      refine forall_congr' fun i => imp_congr_right fun _ => ?_
      by_cases hi : i < 8 * bitmapLength (slotCount size.bytes schema.rowSize)
      · rw [bit_take hi]
        exact ⟨fun h _ => h, fun h => h hi⟩
      · refine iff_of_true (bit_of_length_le ?_) fun h => absurd h hi
        rw [List.length_take]
        omega
    rw [if_neg (not_not_intro hlen), ← hspare]
    simp only [hlen, true_and]
    cases strayBit? _ _ with
    | some bit => simp
    | none =>
      cases decodeSlots id schema _ 0 _ _ with
      | error e => simp
      | ok slots => simp [eq_comm]
  · rw [if_pos hlen]
    simp [hlen]

/-- **The decoder accepts the pages and nothing else.** -/
theorem decode_isOk : (∃ p, decode size id schema d = .ok p) ↔ Format size schema d := by
  have hle := layout_le size.bytes schema.rowSize
  have hbits := le_bits (slotCount size.bytes schema.rowSize)
  have hzero : slotStart size schema 0 = bitmapLength (slotCount size.bytes schema.rowSize) := by
    rw [slotStart, Nat.zero_mul, Nat.add_zero]
  have hslots : d.length = size.bytes →
      ((∃ slots, decodeSlots id schema
          (d.take (bitmapLength (slotCount size.bytes schema.rowSize))) 0
          (slotCount size.bytes schema.rowSize) (d.drop (slotStart size schema 0)) = .ok slots) ↔
        ∀ i, i < slotCount size.bytes schema.rowSize → d.bit i = true →
          ∀ j, schema.types[j]? = some .text → d.TextAt (fieldStart size schema i j)) := by
    intro hlen
    rw [decodeSlots_isOk (by rw [List.length_drop, hzero]; omega)]
    refine forall_congr' fun i => imp_congr_right fun hi => ?_
    rw [Nat.zero_add, bit_take (by omega)]
    refine imp_congr_right fun _ => forall_congr' fun j => imp_congr_right fun _ => ?_
    rw [Bytes.textAt_drop, hzero, fieldStart, slotStart, Nat.add_assoc]
  constructor
  · rintro ⟨p, hp⟩
    obtain ⟨hlen, hspare, slots, hs, -⟩ := decode_ok_iff.1 hp
    exact ⟨hlen, hspare, (hslots hlen).1 ⟨slots, hs⟩⟩
  · intro h
    obtain ⟨slots, hs⟩ := (hslots h.length_eq).2 h.texts
    exact ⟨_, decode_ok_iff.2 ⟨h.length_eq, h.spare, slots, hs, rfl⟩⟩

/-- What is not accepted is reported as a corrupt page, by its name. -/
theorem decode_error {e : Error} (h : decode size id schema d = .error e) :
    ∃ c, e = .corruptPage id c := by
  rw [decode] at h
  split at h
  · cases h
    exact ⟨_, rfl⟩
  · dsimp only at h
    split at h
    · cases h
      exact ⟨_, rfl⟩
    · split at h
      · rename_i hslots
        cases h
        exact decodeSlots_error hslots
      · cases h

end Page
end TableStore
