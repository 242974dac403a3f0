import TableStore.Page.Codec

/-!
# What is left of a value when it is stored

A value that has been written is read back as it was, but for texts that are too long: these have
been cut.  What has been read back once is not cut again.

## What is here

* `Utf8.fit_of_length_le` — a text that fits is not cut.
* `FieldType.decode_encode`, `FieldType.stored_of_decode` — a value read back from its bytes, and a
  value that comes from bytes.
* `Row.stored_stored` — a stored row stays as it is when it is stored again.
* `Page.decodeValues_encode`, `Page.decodeSlots_encode` — the same for the values of a row and for
  consecutive slots.
-/

set_option autoImplicit false
namespace TableStore

/-! ## Texts -/

namespace Utf8

theorem encode_eq_flatMap (s : String) : encode s = s.toList.flatMap String.utf8EncodeChar := by
  rw [← encode_ofList, String.ofList_toList]

theorem fitChars_of_length_le {limit : Nat} {cs : List Char}
    (h : (cs.flatMap String.utf8EncodeChar).length ≤ limit) : fitChars limit cs = cs := by
  induction cs generalizing limit with
  | nil => rfl
  | cons c cs ih =>
    rw [List.flatMap_cons, List.length_append, String.length_utf8EncodeChar] at h
    rw [fitChars, if_pos (by omega), ih (by omega)]

/-- A text that fits is not cut. -/
theorem fit_of_length_le {limit : Nat} {s : String} (h : (encode s).length ≤ limit) :
    fit limit s = s := by
  rw [encode_eq_flatMap] at h
  rw [fit, fitChars_of_length_le h, String.ofList_toList]

/-- What has been cut once is not cut again. -/
theorem fit_fit (limit : Nat) (s : String) : fit limit (fit limit s) = fit limit s :=
  fit_of_length_le (length_encode_fit limit s)

end Utf8

/-! ## Values

A number is stored as it is, and a text loses what does not fit.  What has come from bytes has lost
it already. -/

@[simp] theorem Value.stored_stored (v : Value) : v.stored.stored = v.stored := by
  cases v with
  | int n => rfl
  | text s => exact congrArg Value.text (Utf8.fit_fit textCapacity s)

namespace FieldType

theorem decode_encode_int (n : Int32) (rest : Bytes) :
    int.decode ((Value.int n).encode ++ rest) = .ok (.int n) := by
  have hlen : ¬ ((Value.int n).encode ++ rest).length < int.size := by
    rw [List.length_append, Value.length_encode]
    exact Nat.not_lt.2 (Nat.le_add_right _ _)
  have henc : (Value.int n).encode = Bytes.ofWord n.toUInt32 := rfl
  rw [decode.eq_def, if_neg hlen, henc, Bytes.word?_ofWord]
  rfl

theorem decode_encode_text (s : String) (rest : Bytes) :
    text.decode ((Value.text s).encode ++ rest) = .ok (Value.text s).stored := by
  have hlen : ¬ ((Value.text s).encode ++ rest).length < text.size := by
    rw [List.length_append, Value.length_encode]
    exact Nat.not_lt.2 (Nat.le_add_right _ _)
  have hfit := Utf8.length_encode_fit textCapacity s
  have henc : (Value.text s).encode =
      Bytes.ofWord (UInt32.ofNat (Utf8.encode (Utf8.fit textCapacity s)).length)
        ++ (Utf8.encode (Utf8.fit textCapacity s)).resize textCapacity := rfl
  rw [decode.eq_def, if_neg hlen, henc]
  generalize hc : Utf8.encode (Utf8.fit textCapacity s) = chars at hfit
  -- the length of the characters stands before them, so they are found again
  have hword : (UInt32.ofNat chars.length).toNat = chars.length :=
    UInt32.toNat_ofNat_of_lt' (Nat.lt_of_le_of_lt hfit (by decide))
  have hslice : (Bytes.ofWord (UInt32.ofNat chars.length) ++ chars.resize textCapacity
      ++ rest).slice 4 chars.length = chars := by
    rw [Bytes.slice, List.append_assoc, List.drop_left' (Bytes.length_ofWord _), Bytes.resize,
      List.take_of_length_le hfit, List.append_assoc, List.take_left' rfl]
  rw [List.append_assoc, Bytes.word?_ofWord]
  dsimp only
  rw [hword, if_neg (Nat.not_lt.2 hfit), ← List.append_assoc, hslice, ← hc, Utf8.decode?_encode]
  rfl

/-- A value is read back from its bytes, cut to what is stored. -/
theorem decode_encode (v : Value) (rest : Bytes) :
    v.type.decode (v.encode ++ rest) = .ok v.stored := by
  cases v with
  | int n => exact decode_encode_int n rest
  | text s => exact decode_encode_text s rest

/-- A value that comes from bytes is not cut when it is stored. -/
theorem stored_of_decode {t : FieldType} {b : Bytes} {v : Value} (h : t.decode b = .ok v) :
    v.stored = v := by
  rw [decode.eq_def] at h
  split at h
  · cases h
  · split at h
    · cases h
    · cases h
      rfl
    · rename_i w _ _
      split at h
      · cases h
      · rename_i hw
        split at h
        · rename_i s hs
          cases h
          have hlen : (Utf8.encode s).length ≤ w.toNat := by
            rw [← Utf8.decode?_eq_some_iff.1 hs]
            exact List.length_take_le _ _
          have hfit := Utf8.fit_of_length_le (Nat.le_trans hlen (Nat.not_lt.1 hw))
          exact congrArg Value.text hfit
        · cases h

end FieldType

/-! ## Rows -/

namespace Row

@[simp] theorem stored_stored (r : Row) : r.stored.stored = r.stored := by
  simp only [stored, List.map_map, Row.mk.injEq, and_true]
  exact List.map_congr_left fun v _ => v.stored_stored

@[simp] theorem rid_stored (r : Row) : r.stored.rid = r.rid := rfl

end Row

/-! ## Slots -/

namespace Page

/-- The values of a row are read back from its bytes. -/
theorem decodeValues_encode (vs : List Value) (rest : Bytes) :
    decodeValues (vs.map Value.type) (vs.flatMap Value.encode ++ rest) =
      .ok (vs.map Value.stored) := by
  induction vs with
  | nil => rfl
  | cons v vs ih =>
    rw [List.map_cons, decodeValues, List.flatMap_cons, List.append_assoc,
      FieldType.decode_encode, List.drop_left' (Value.length_encode v)]
    dsimp only
    rw [ih]
    rfl

/-- Values that come from bytes have the right types and are not cut when they are stored. -/
theorem of_decodeValues {ts : List FieldType} {b : Bytes} {vs : List Value}
    (h : decodeValues ts b = .ok vs) : vs.map Value.type = ts ∧ vs.map Value.stored = vs := by
  induction ts generalizing b vs with
  | nil => cases h; exact ⟨rfl, rfl⟩
  | cons t ts ih =>
    rw [decodeValues] at h
    split at h
    · cases h
    · rename_i v hv
      split at h
      · cases h
      · rename_i ws hws
        cases h
        obtain ⟨ht, hs⟩ := ih hws
        rw [List.map_cons, List.map_cons, ht, hs, FieldType.type_of_decode hv,
          FieldType.stored_of_decode hv]
        exact ⟨rfl, rfl⟩

variable {id : PageId} {schema : Schema} {bitmap : Bytes}

/-- Whether the slots from number `i` on agree with the bitmap, the schema and their places. -/
structure SlotsFormed (id : PageId) (schema : Schema) (bitmap : Bytes) (i : Nat)
    (slots : List (Option Row)) : Prop where
  used : ∀ j (h : j < slots.length), bitmap.bit (i + j) = slots[j].isSome
  typed : ∀ (j : Nat) (r : Row), slots[j]? = some (some r) → r.types = schema.types
  placed : ∀ (j : Nat) (r : Row), slots[j]? = some (some r) → r.rid = some ⟨id, i + j⟩

theorem SlotsFormed.tail {i : Nat} {slot : Option Row} {slots : List (Option Row)}
    (h : SlotsFormed id schema bitmap i (slot :: slots)) :
    SlotsFormed id schema bitmap (i + 1) slots where
  used j hj := by
    have := h.used (j + 1) (Nat.succ_lt_succ hj)
    rw [Nat.add_right_comm, Nat.add_assoc]
    exact this
  typed j r hr := h.typed (j + 1) r (by rw [List.getElem?_cons_succ, hr])
  placed j r hr := by
    rw [h.placed (j + 1) r (by rw [List.getElem?_cons_succ, hr]), Nat.add_right_comm, Nat.add_assoc]

theorem SlotsFormed.cons {i : Nat} {slot : Option Row} {slots : List (Option Row)}
    (hu : bitmap.bit i = slot.isSome)
    (hr : ∀ r, slot = some r → r.types = schema.types ∧ r.rid = some ⟨id, i⟩)
    (h : SlotsFormed id schema bitmap (i + 1) slots) :
    SlotsFormed id schema bitmap i (slot :: slots) where
  used j hj := by
    cases j with
    | zero => exact hu
    | succ j =>
      have := h.used j (Nat.lt_of_succ_lt_succ hj)
      rw [Nat.add_right_comm, Nat.add_assoc] at this
      exact this
  typed j r hj := by
    cases j with
    | zero => exact (hr r (Option.some.inj hj)).1
    | succ j => exact h.typed j r (by rwa [List.getElem?_cons_succ] at hj)
  placed j r hj := by
    cases j with
    | zero => exact (hr r (Option.some.inj hj)).2
    | succ j =>
      rw [h.placed j r (by rwa [List.getElem?_cons_succ] at hj), Nat.add_right_comm, Nat.add_assoc]

theorem length_encodeSlot {i : Nat} {slots : List (Option Row)}
    (h : SlotsFormed id schema bitmap i slots) {slot : Option Row} (hm : slot ∈ slots) :
    (encodeSlot schema.rowSize slot).length = schema.rowSize := by
  cases slot with
  | none => exact Bytes.length_zeros _
  | some r =>
    obtain ⟨j, hj⟩ := List.mem_iff_getElem?.1 hm
    rw [encodeSlot, Row.length_encode, h.typed j r hj, Schema.rowSize]

/-- Consecutive slots are read back from their bytes, each row cut to what is stored. -/
theorem decodeSlots_encode {i : Nat} {slots : List (Option Row)}
    (h : SlotsFormed id schema bitmap i slots) (rest : Bytes) :
    decodeSlots id schema bitmap i slots.length
        (slots.flatMap (encodeSlot schema.rowSize) ++ rest) =
      .ok (slots.map (Option.map Row.stored)) := by
  induction slots generalizing i with
  | nil => rfl
  | cons slot slots ih =>
    have hlen := length_encodeSlot h (List.mem_cons_self (a := slot))
    have hbit : bitmap.bit i = slot.isSome := h.used 0 (Nat.succ_pos _)
    have hrest := ih h.tail
    rw [List.length_cons, decodeSlots, List.flatMap_cons, List.append_assoc,
      List.take_left' hlen, List.drop_left' hlen, hrest, hbit]
    cases slot with
    | none => rfl
    | some r =>
      have ht := h.typed 0 r rfl
      have hp := h.placed 0 r rfl
      have hv := decodeValues_encode r.values []
      rw [List.append_nil] at hv
      have hr : decodeValues schema.types (encodeSlot schema.rowSize (some r)) =
          .ok (r.values.map Value.stored) := by
        rw [← ht]
        exact hv
      rw [hr]
      simp only [Option.isSome_some, ↓reduceIte, List.map_cons, Option.map_some, Row.stored, hp,
        Nat.add_zero]

/-- The row in a slot that comes from bytes has the types of the schema and knows its place. -/
theorem of_decodeSlot {i : Nat} {b : Bytes} {slot : Option Row}
    (h : (if bitmap.bit i then
        match decodeValues schema.types b with
        | .error fault => .error (.corruptPage id (.badSlot i fault))
        | .ok values => .ok (some { values, rid := some ⟨id, i⟩ })
      else .ok none : Except Error (Option Row)) = .ok slot) :
    bitmap.bit i = slot.isSome ∧
      ∀ r, slot = some r → r.types = schema.types ∧ r.rid = some ⟨id, i⟩ ∧ r.stored = r := by
  split at h
  · rename_i hbit
    split at h
    · cases h
    · rename_i values hv
      cases h
      obtain ⟨ht, hs⟩ := of_decodeValues hv
      refine ⟨hbit, fun r hr => ?_⟩
      cases hr
      exact ⟨ht, rfl, by rw [Row.stored, hs]⟩
  · rename_i hbit
    cases h
    exact ⟨by simpa using hbit, fun _ he => by cases he⟩

/-- Slots that come from bytes agree with the bitmap, and are not cut when they are stored. -/
theorem of_decodeSlots {i n : Nat} {b : Bytes} {slots : List (Option Row)}
    (h : decodeSlots id schema bitmap i n b = .ok slots) :
    slots.length = n ∧ SlotsFormed id schema bitmap i slots ∧
      slots.map (Option.map Row.stored) = slots := by
  induction n generalizing i b slots with
  | zero =>
    cases h
    exact ⟨rfl, ⟨fun j hj => absurd hj (Nat.not_lt_zero j), fun _ _ he => (by cases he),
      fun _ _ he => by cases he⟩, rfl⟩
  | succ n ih =>
    rw [decodeSlots] at h
    split at h
    · cases h
    · rename_i slot hslot
      split at h
      · cases h
      · rename_i tail htail
        cases h
        obtain ⟨hlen, hf, hs⟩ := ih htail
        obtain ⟨hu, hr⟩ := of_decodeSlot hslot
        refine ⟨congrArg Nat.succ hlen, hf.cons hu fun r he => ?_, ?_⟩
        · exact ⟨(hr r he).1, (hr r he).2.1⟩
        · rw [List.map_cons, hs]
          cases slot with
          | none => rfl
          | some r => rw [Option.map_some, (hr r rfl).2.2]

end Page
end TableStore
