import TableStore.Proofs.Page.Bounds
import TableStore.Proofs.Page.Format

/-!
# Writing a page that was read

A page read from bytes need not be written back as the same bytes: what a free slot holds, what
follows the characters of a text and what follows the last slot is not kept.  These bytes are idle.
Writing the page sets them to zero and keeps all others, and after that nothing changes any more.

## What is here

* `Page.Idle` — the bytes of a page that carry nothing.
* `Bytes.Blanked` — a string is what stands at a place in another, with the idle bytes set to zero.
  The strings of fields, rows, slots and pages are put together from such parts.
* `Page.blanked_encode` — a page that was read is written with its idle bytes set to zero.
* `Page.decode_format` — which strings are pages, what is said of the others, and what becomes of a
  page that is read and written.
-/

set_option autoImplicit false
namespace TableStore

/-! ## Strings with idle bytes set to zero

A page that has been read and is written again is not the same string: bytes that carry nothing come
out as zeros.  This relates the two strings part by part. -/

namespace Bytes

variable {idle idle' : Nat → Prop} {d c c' : Bytes} {start n : Nat}

/-- `b` is what stands in `d` from `start` on, but for idle bytes, which are zero. -/
structure Blanked (idle : Nat → Prop) (d : Bytes) (start : Nat) (b : Bytes) : Prop where
  kept : ∀ k, k < b.length → ¬ idle (start + k) → b[k]? = d[start + k]?
  blank : ∀ k, k < b.length → idle (start + k) → b[k]? = some 0

theorem Blanked.congr (h : Blanked idle d start c)
    (hi : ∀ k, start ≤ k → k < start + c.length → (idle' k ↔ idle k)) :
    Blanked idle' d start c where
  kept k hk hn := h.kept k hk fun hid => hn ((hi _ (by omega) (by omega)).2 hid)
  blank k hk hid := h.blank k hk ((hi _ (by omega) (by omega)).1 hid)

theorem Blanked.append (h : Blanked idle d start c) (h' : Blanked idle d (start + c.length) c') :
    Blanked idle d start (c ++ c') where
  kept k hk hn := by
    rw [List.length_append] at hk
    by_cases hlt : k < c.length
    · rw [List.getElem?_append_left hlt]
      exact h.kept k hlt hn
    · have hpos : start + c.length + (k - c.length) = start + k := by omega
      rw [List.getElem?_append_right (by omega), h'.kept (k - c.length) (by omega) (by rwa [hpos]),
        hpos]
  blank k hk hid := by
    rw [List.length_append] at hk
    by_cases hlt : k < c.length
    · rw [List.getElem?_append_left hlt]
      exact h.blank k hlt hid
    · have hpos : start + c.length + (k - c.length) = start + k := by omega
      rw [List.getElem?_append_right (by omega)]
      exact h'.blank (k - c.length) (by omega) (by rwa [hpos])

/-- A part without idle bytes is kept. -/
theorem blanked_slice (hi : ∀ k, start ≤ k → k < start + n → ¬ idle k) :
    Blanked idle d start (d.slice start n) where
  kept k hk _ := by
    rw [slice, List.length_take] at hk
    rw [slice, List.getElem?_take_of_lt (by omega), List.getElem?_drop]
  blank k hk hid := by
    rw [slice, List.length_take] at hk
    exact absurd hid (hi _ (by omega) (by omega))

/-- A part that is idle throughout becomes zeros. -/
theorem blanked_zeros (hi : ∀ k, start ≤ k → k < start + n → idle k) :
    Blanked idle d start (zeros n) where
  kept k hk hn := by
    rw [length_zeros] at hk
    exact absurd (hi _ (by omega) (by omega)) hn
  blank k hk _ := by
    rw [length_zeros] at hk
    rw [zeros, List.getElem?_replicate, if_pos hk]

theorem resize_of_length_le {b : Bytes} (h : b.length ≤ n) :
    b.resize n = b ++ zeros (n - b.length) := by
  rw [resize, List.take_of_length_le h]

end Bytes

/-! ## Fields -/

namespace FieldType

variable {t : FieldType} {d : Bytes} {start k : Nat} {v : Value}

/-- The bytes of a field that follow the characters of a text. -/
def Idle (t : FieldType) (d : Bytes) (start k : Nat) : Prop :=
  t = .text ∧ ∃ n, d.LengthAt start n ∧ start + 4 + n ≤ k ∧ k < start + text.size

theorem Idle.bounds (h : t.Idle d start k) : start ≤ k ∧ k < start + t.size := by
  obtain ⟨rfl, n, -, hfrom, hto⟩ := h
  exact ⟨by omega, hto⟩

/-- A field that was read is written with its idle bytes set to zero. -/
theorem blanked_encode (h : t.decode (d.drop start) = .ok v) :
    Bytes.Blanked (t.Idle d start) d start v.encode := by
  cases t with
  | int =>
    obtain ⟨-, w, hw, rfl⟩ := decode_int_iff.1 h
    have he : (Value.int w.toInt32).encode = d.slice start 4 := by
      rw [Bytes.slice_drop, Nat.add_zero] at hw
      rw [hw]
      rfl
    rw [he]
    exact Bytes.blanked_slice fun k _ _ hid => by cases hid.1
  | text =>
    obtain ⟨hlen, n, s, hn, hs, rfl⟩ := decode_text_iff.1 h
    rw [Bytes.lengthAt_drop, Nat.add_zero] at hn
    rw [Bytes.slice_drop] at hs
    rw [List.length_drop, size] at hlen
    have hcap := hn.1
    have hchars : (Utf8.encode s).length = n := by
      rw [← hs, Bytes.slice, List.length_take, List.length_drop]
      omega
    -- the length, the characters and what follows them
    have he : (Value.text s).encode =
        d.slice start 4 ++ (d.slice (start + 4) n ++ Bytes.zeros (textCapacity - n)) := by
      rw [Value.encode, Utf8.fit_of_length_le (by omega), hs, hn.2, hchars,
        Bytes.resize_of_length_le (by omega), hchars]
    have hword : (d.slice start 4).length = 4 := by rw [hn.2, Bytes.length_ofWord]
    have hkeep : Bytes.Blanked (text.Idle d start) d start (d.slice start 4) := by
      refine Bytes.blanked_slice fun k _ hto hid => ?_
      obtain ⟨-, m, -, hm, -⟩ := hid
      omega
    have hkeep' : Bytes.Blanked (text.Idle d start) d (start + 4) (d.slice (start + 4) n) := by
      refine Bytes.blanked_slice fun k _ hto hid => ?_
      obtain ⟨-, m, hm, hle, -⟩ := hid
      rw [hm.unique hn] at hle
      omega
    have hrest : Bytes.Blanked (text.Idle d start) d (start + 4 + n)
        (Bytes.zeros (textCapacity - n)) := by
      refine Bytes.blanked_zeros fun k hfrom hto => ⟨rfl, n, hn, hfrom, ?_⟩
      rw [size]
      omega
    rw [he]
    refine hkeep.append ?_
    rw [hword]
    refine hkeep'.append ?_
    rwa [hs, hchars]

end FieldType

/-! ## Rows and slots -/

namespace Page

variable {id : PageId} {schema : Schema} {bitmap d : Bytes} {ts : List FieldType}
  {t : FieldType} {start i n k : Nat}

/-- The bytes of a row that follow the characters of a text. -/
def RowIdle (ts : List FieldType) (d : Bytes) (start k : Nat) : Prop :=
  ∃ (j : Nat) (t : FieldType), ts[j]? = some t ∧ t.Idle d (start + FieldType.totalSize (ts.take j)) k

theorem rowIdle_cons :
    RowIdle (t :: ts) d start k ↔ t.Idle d start k ∨ RowIdle ts d (start + t.size) k := by
  constructor
  · rintro ⟨j, u, hu, hid⟩
    cases j with
    | zero =>
      cases hu
      exact .inl hid
    | succ j =>
      rw [List.take_succ_cons, FieldType.totalSize, ← Nat.add_assoc] at hid
      exact .inr ⟨j, u, hu, hid⟩
  · rintro (hid | ⟨j, u, hu, hid⟩)
    · exact ⟨0, t, rfl, hid⟩
    · refine ⟨j + 1, u, hu, ?_⟩
      rwa [List.take_succ_cons, FieldType.totalSize, ← Nat.add_assoc]

theorem RowIdle.bounds (h : RowIdle ts d start k) :
    start ≤ k ∧ k < start + FieldType.totalSize ts := by
  obtain ⟨j, t, ht, hid⟩ := h
  have hle := FieldType.totalSize_take_le ht
  obtain ⟨hfrom, hto⟩ := hid.bounds
  omega

/-- A row that was read is written with its idle bytes set to zero. -/
theorem blanked_flatMap {vs : List Value} (h : decodeValues ts (d.drop start) = .ok vs) :
    Bytes.Blanked (RowIdle ts d start) d start (vs.flatMap Value.encode) := by
  induction ts generalizing start vs with
  | nil =>
    cases h
    exact ⟨fun k hk => absurd hk (Nat.not_lt_zero k), fun k hk => absurd hk (Nat.not_lt_zero k)⟩
  | cons t ts ih =>
    rw [decodeValues] at h
    split at h
    · cases h
    · rename_i v hv
      split at h
      · cases h
      · rename_i ws hws
        cases h
        have hsize : v.encode.length = t.size := by
          rw [Value.length_encode, FieldType.type_of_decode hv]
        rw [List.drop_drop] at hws
        rw [List.flatMap_cons]
        refine ((FieldType.blanked_encode hv).congr fun k _ hto => ?_).append
          (.congr (by rw [hsize]; exact ih hws) fun k hfrom _ => ?_)
        · rw [rowIdle_cons]
          refine or_iff_left fun hid => ?_
          have := hid.bounds
          omega
        · rw [rowIdle_cons]
          refine or_iff_right fun hid => ?_
          have := hid.bounds
          omega

/-- The idle bytes of a slot: all of them if it is free, and else those of its row. -/
def SlotIdle (schema : Schema) (bitmap d : Bytes) (start i k : Nat) : Prop :=
  start ≤ k ∧ k < start + schema.rowSize ∧ (bitmap.bit i = true → RowIdle schema.types d start k)

/-- The idle bytes of `n` slots, beginning with slot `i`. -/
def SlotsIdle (schema : Schema) (bitmap d : Bytes) (start i n k : Nat) : Prop :=
  ∃ m, m < n ∧ SlotIdle schema bitmap d (start + m * schema.rowSize) (i + m) k

theorem slotsIdle_succ : SlotsIdle schema bitmap d start i (n + 1) k ↔
    SlotIdle schema bitmap d start i k ∨
      SlotsIdle schema bitmap d (start + schema.rowSize) (i + 1) n k := by
  have hshift : ∀ m, start + (m + 1) * schema.rowSize =
      start + schema.rowSize + m * schema.rowSize := fun m => by
    rw [Nat.succ_mul]
    omega
  constructor
  · rintro ⟨m, hm, hid⟩
    cases m with
    | zero =>
      rw [Nat.zero_mul] at hid
      exact .inl hid
    | succ m =>
      rw [hshift, ← Nat.add_assoc, Nat.add_right_comm i] at hid
      exact .inr ⟨m, by omega, hid⟩
  · rintro (hid | ⟨m, hm, hid⟩)
    · exact ⟨0, Nat.succ_pos n, by rwa [Nat.zero_mul]⟩
    · refine ⟨m + 1, by omega, ?_⟩
      rwa [hshift, ← Nat.add_assoc, Nat.add_right_comm i]

theorem SlotsIdle.le (h : SlotsIdle schema bitmap d start i n k) : start ≤ k := by
  obtain ⟨m, -, hfrom, -⟩ := h
  omega

/-- A slot that was read is written with its idle bytes set to zero. -/
theorem blanked_encodeSlot {slot : Option Row}
    (h : (if bitmap.bit i then
        match decodeValues schema.types ((d.drop start).take schema.rowSize) with
        | .error fault => .error (.corruptPage id (.badSlot i fault))
        | .ok values => .ok (some { values, rid := some ⟨id, i⟩ })
      else .ok none : Except Error (Option Row)) = .ok slot) :
    (encodeSlot schema.rowSize slot).length = schema.rowSize ∧
      Bytes.Blanked (SlotIdle schema bitmap d start i) d start
        (encodeSlot schema.rowSize slot) := by
  rw [decodeValues_take (Nat.le_refl schema.rowSize)] at h
  split at h
  · rename_i hbit
    split at h
    · cases h
    · rename_i values hv
      cases h
      have hlen : (encodeSlot schema.rowSize
          (some { values, rid := some ⟨id, i⟩ })).length = schema.rowSize := by
        rw [encodeSlot, Row.length_encode, Row.types, (of_decodeValues hv).1, Schema.rowSize]
      refine ⟨hlen, (blanked_flatMap hv).congr fun k hfrom hto => ?_⟩
      rw [SlotIdle]
      refine ⟨fun hid => hid.2.2 hbit, fun hid => ⟨hid.bounds.1, hid.bounds.2, fun _ => hid⟩⟩
  · rename_i hbit
    cases h
    exact ⟨Bytes.length_zeros _, Bytes.blanked_zeros fun k hfrom hto =>
      ⟨hfrom, hto, fun hb => absurd hb hbit⟩⟩

/-- Slots that were read are written with their idle bytes set to zero. -/
theorem blanked_slots {slots : List (Option Row)}
    (h : decodeSlots id schema bitmap i n (d.drop start) = .ok slots) :
    (slots.flatMap (encodeSlot schema.rowSize)).length = n * schema.rowSize ∧
      Bytes.Blanked (SlotsIdle schema bitmap d start i n) d start
        (slots.flatMap (encodeSlot schema.rowSize)) := by
  induction n generalizing i start slots with
  | zero =>
    cases h
    rw [Nat.zero_mul]
    exact ⟨rfl, fun k hk => absurd hk (Nat.not_lt_zero k), fun k hk => absurd hk (Nat.not_lt_zero k)⟩
  | succ n ih =>
    rw [decodeSlots] at h
    split at h
    · cases h
    · rename_i slot hslot
      split at h
      · cases h
      · rename_i rest hrest
        cases h
        rw [List.drop_drop] at hrest
        obtain ⟨hlen, hslot⟩ := blanked_encodeSlot hslot
        obtain ⟨hlens, hrest⟩ := ih hrest
        rw [List.flatMap_cons, List.length_append, hlen, hlens, Nat.succ_mul, Nat.add_comm]
        refine ⟨rfl, (hslot.congr fun k _ hto => ?_).append
          (.congr (by rw [hlen]; exact hrest) fun k hfrom _ => ?_)⟩
        · rw [slotsIdle_succ]
          refine or_iff_left fun hid => ?_
          have := hid.le
          omega
        · rw [slotsIdle_succ]
          refine or_iff_right fun hid => ?_
          have := hid.2.1
          omega

/-! ## Pages -/

variable {size : PageSize} {p : Page}

/-- The bytes of a page that carry nothing: those of free slots, those that follow the characters of
a text in a slot that is in use, and those that follow the last slot. -/
inductive Idle (size : PageSize) (schema : Schema) (d : Bytes) (k : Nat) : Prop
  | free {i : Nat} (hi : i < slotCount size.bytes schema.rowSize) (hfree : d.bit i = false)
      (hfrom : slotStart size schema i ≤ k) (hto : k < slotStart size schema (i + 1))
  | past {i j n : Nat} (hi : i < slotCount size.bytes schema.rowSize) (hused : d.bit i = true)
      (hj : schema.types[j]? = some .text) (hn : d.LengthAt (fieldStart size schema i j) n)
      (hfrom : fieldStart size schema i j + 4 + n ≤ k)
      (hto : k < fieldStart size schema i j + FieldType.text.size)
  | rest (h : slotStart size schema (slotCount size.bytes schema.rowSize) ≤ k)

theorem slotStart_succ (size : PageSize) (schema : Schema) (i : Nat) :
    slotStart size schema (i + 1) = slotStart size schema i + schema.rowSize := by
  rw [slotStart, slotStart, Nat.succ_mul, Nat.add_assoc]

/-- The idle bytes of a page are those of its slots and those that follow them. -/
theorem idle_iff : Idle size schema d k ↔
    SlotsIdle schema (d.take (bitmapLength (slotCount size.bytes schema.rowSize))) d
        (bitmapLength (slotCount size.bytes schema.rowSize)) 0
        (slotCount size.bytes schema.rowSize) k ∨
      slotStart size schema (slotCount size.bytes schema.rowSize) ≤ k := by
  have hbit : ∀ i, i < slotCount size.bytes schema.rowSize →
      Bytes.bit (d.take (bitmapLength (slotCount size.bytes schema.rowSize))) (0 + i) =
        d.bit i := fun i hi => by
    rw [Nat.zero_add, bit_take (Nat.lt_of_lt_of_le hi (le_bits _))]
  constructor
  · rintro (⟨hi, hfree, hfrom, hto⟩ | @⟨i, j, n, hi, hused, hj, hn, hfrom, hto⟩ | h)
    · rw [slotStart_succ] at hto
      refine .inl ⟨_, hi, hfrom, hto, fun hb => ?_⟩
      rw [hbit _ hi, hfree] at hb
      cases hb
    · have hid : RowIdle schema.types d (slotStart size schema i) k :=
        ⟨j, .text, hj, rfl, _, hn, hfrom, hto⟩
      exact .inl ⟨_, hi, hid.bounds.1, hid.bounds.2, fun _ => hid⟩
    · exact .inr h
  · rintro (⟨i, hi, hfrom, hto, hrow⟩ | h)
    · rw [hbit i hi] at hrow
      cases hb : d.bit i with
      | false => exact .free hi hb hfrom (by rwa [slotStart_succ])
      | true =>
        obtain ⟨j, t, hj, rfl, n, hn, hfrom, hto⟩ := hrow hb
        exact .past hi hb hj hn hfrom hto
    · exact .rest h

/-- **A page that was read is written with its idle bytes set to zero.** -/
theorem blanked_encode (h : decode size id schema d = .ok p) :
    Bytes.Blanked (Idle size schema d) d 0 p.encode := by
  obtain ⟨hlen, -, slots, hslots, rfl⟩ := decode_ok_iff.1 h
  have hle := layout_le size.bytes schema.rowSize
  have hzero : slotStart size schema 0 = bitmapLength (slotCount size.bytes schema.rowSize) := by
    rw [slotStart, Nat.zero_mul, Nat.add_zero]
  have hlast : slotStart size schema (slotCount size.bytes schema.rowSize) =
      bitmapLength (slotCount size.bytes schema.rowSize) +
        slotCount size.bytes schema.rowSize * schema.rowSize := rfl
  rw [hzero] at hslots
  obtain ⟨hcount, hblanked⟩ := blanked_slots hslots
  have hbitmap : (d.take (bitmapLength (slotCount size.bytes schema.rowSize))).length =
      bitmapLength (slotCount size.bytes schema.rowSize) := List.length_take_of_le (by omega)
  have hparts : (d.take (bitmapLength (slotCount size.bytes schema.rowSize)) ++
      slots.flatMap (encodeSlot schema.rowSize)).length ≤ size.bytes := by
    rw [List.length_append, hbitmap, hcount]
    exact hle
  rw [encode, Bytes.resize_of_length_le hparts, List.append_assoc]
  -- the bitmap, the slots and what follows them
  refine Bytes.Blanked.append (c := d.take _) ?_ (.append (c := slots.flatMap _) ?_ ?_)
  · have hslice : d.take (bitmapLength (slotCount size.bytes schema.rowSize)) =
        d.slice 0 (bitmapLength (slotCount size.bytes schema.rowSize)) := rfl
    rw [hslice]
    refine Bytes.blanked_slice fun k _ hto hid => ?_
    rcases idle_iff.1 hid with hid | hid
    · have := hid.le
      omega
    · omega
  · rw [hbitmap, Nat.zero_add]
    refine hblanked.congr fun k _ hto => ?_
    rw [idle_iff]
    exact or_iff_left (by omega)
  · rw [hbitmap, Nat.zero_add, hcount]
    exact Bytes.blanked_zeros fun k hfrom _ => .rest hfrom

/-- A page that was read is read back from what is written as it is, and written alike again. -/
theorem decode_encode_decode (h : decode size id schema d = .ok p) :
    ∃ q, decode size id schema p.encode = .ok q ∧ q.slots = p.slots ∧ q.bitmap = p.bitmap ∧
      q.encode = p.encode := by
  obtain ⟨hf, -⟩ := formed_of_decode h
  have hdecode := hf.decode_encode_eq
  obtain ⟨-, -, slots, hslots, rfl⟩ := decode_ok_iff.1 h
  have hstored := (of_decodeSlots hslots).2.2
  rw [hstored] at hdecode
  exact ⟨_, hdecode, rfl, rfl, rfl⟩

/-- **What the decoder of pages does with any bytes.**  It accepts exactly the strings that have the
format of a page, refuses all others as a corrupt page, and looks at no byte outside of them.  The
page that it gives is written as the same bytes with the idle ones set to zero; reading these gives
the same slots again, and writing those changes nothing more. -/
theorem decode_format (size : PageSize) (id : PageId) (schema : Schema) (d : Bytes) :
    ((∃ p, decode size id schema d = .ok p) ↔ Format size schema d) ∧
      (¬ Format size schema d → ∃ c, decode size id schema d = .error (.corruptPage id c)) ∧
      decode? size id schema d = some (decode size id schema d) ∧
      ∀ p, decode size id schema d = .ok p →
        p.encode.length = d.length ∧
          (∀ k, k < d.length →
            (Idle size schema d k → p.encode[k]? = some 0) ∧
              (¬ Idle size schema d k → p.encode[k]? = d[k]?)) ∧
          ∃ q, decode size id schema p.encode = .ok q ∧ q.slots = p.slots ∧
            q.bitmap = p.bitmap ∧ q.encode = p.encode := by
  refine ⟨decode_isOk, fun hn => ?_, decode?_eq size id schema d, fun p hp => ?_⟩
  · cases hd : decode size id schema d with
    | ok p => exact absurd (decode_isOk.1 ⟨p, hd⟩) hn
    | error e =>
      obtain ⟨c, rfl⟩ := decode_error hd
      exact ⟨c, rfl⟩
  · have hlen : p.encode.length = d.length := by
      rw [length_encode, (formed_of_decode hp).1.size_eq, (decode_ok_iff.1 hp).1]
    have hb := blanked_encode hp
    refine ⟨hlen, fun k hk => ?_, decode_encode_decode hp⟩
    have hkept := hb.kept k (by omega)
    have hblank := hb.blank k (by omega)
    rw [Nat.zero_add] at hkept hblank
    exact ⟨hblank, hkept⟩

/-- A page with one text of one character, and other bytes after it. -/
def padded : Bytes := [1, 0, 0, 0, 1, 0x78] ++ List.replicate 127 0xff

/-- What follows the character is set to zero when the page is written. -/
theorem decode_format_padded :
    ∃ p, decode ⟨133, by decide⟩ ⟨⟨0⟩, 0⟩ ⟨[⟨.text, none⟩], by decide⟩ padded = .ok p ∧
      p.encode.length = 133 ∧ padded[6]? = some 0xff ∧ p.encode[6]? = some 0 := by
  obtain ⟨-, -, -, h⟩ :=
    decode_format ⟨133, by decide⟩ ⟨⟨0⟩, 0⟩ ⟨[⟨.text, none⟩], by decide⟩ padded
  have hok : (decode ⟨133, by decide⟩ ⟨⟨0⟩, 0⟩ ⟨[⟨.text, none⟩], by decide⟩ padded).isOk = true := by
    decide +kernel
  cases hp : decode ⟨133, by decide⟩ ⟨⟨0⟩, 0⟩ ⟨[⟨.text, none⟩], by decide⟩ padded with
  | error e =>
    rw [hp] at hok
    cases hok
  | ok p =>
    obtain ⟨hlen, hbytes, -⟩ := h p hp
    have hidle : Idle ⟨133, by decide⟩ ⟨[⟨.text, none⟩], by decide⟩ padded 6 :=
      .past (i := 0) (j := 0) (n := 1) (by decide) (by decide +kernel) rfl
        ⟨by decide, by decide +kernel⟩ (by decide) (by decide)
    exact ⟨p, rfl, hlen, by decide +kernel, (hbytes 6 (by decide +kernel)).1 hidle⟩

end Page
end TableStore
