import Mathlib.Tactic.IntervalCases
import Mathlib.Tactic.SplitIfs
import TableStore.Proofs.Page.Canonical
import TableStore.Proofs.Page.Clipped

/-!
# Fields as bytes

`Value.encode` takes from a text the characters that fit, one after the other.  A field is written
without looking at characters: from the capacity, or from the end of the text if that comes first,
one goes back byte by byte until a character ends there.  Here this is shown to stop after at most
three steps, never before the start of the text, and with the same bytes.

## What is here

* `Utf8.isBoundary`, `Utf8.boundaryBefore?` — whether a character ends at an index, seen from the
  byte that stands there, and the search for such an index.
* `Utf8.isBoundary_iff` — a character ends at an index just if the bytes before it are those of
  whole characters.
* `Utf8.boundaryBefore?_fit` — the search ends after the characters that `Utf8.fit` keeps.
* `Value.append?` — a value written after other bytes, step by step.  `none` stands for a search that
  passes the start of the text, or for an access past its end.
* `Value.field_codec` — what is written of a value and read back from it, and what is written of a
  value that was read.
-/

set_option autoImplicit false
namespace TableStore

/-! ## Where characters end

Whether a character ends at an index is told by the byte that stands there, without looking at what
comes before. -/

namespace Utf8

/-- Whether a byte continues a character that another has begun. -/
def continues (x : UInt8) : Bool := 0x80 ≤ x.toNat && x.toNat < 0xC0

/-- Whether index `i` of a text is its start, its end or the first byte of a character. -/
def isBoundary (b : Bytes) (i : Nat) : Bool :=
  i == 0 || match b[i]? with
    | some x => !continues x
    | none => i == b.length

/-- The last boundary that is not behind index `i`; each step goes back by one byte. -/
def boundaryBefore? (b : Bytes) : Nat → Option Nat
  | 0 => if isBoundary b 0 then some 0 else none
  | i + 1 => if isBoundary b (i + 1) then some (i + 1) else boundaryBefore? b i

theorem continues_ofNat {n : Nat} (h : n < 256) :
    continues (UInt8.ofNat n) = decide (0x80 ≤ n ∧ n < 0xC0) := by
  rw [continues, UInt8.toNat_ofNat_of_lt' h, Bool.decide_and]

/-- The bytes of a character continue it, but for the first one. -/
theorem continues_utf8EncodeChar {c : Char} {k : Nat} {x : UInt8}
    (h : (String.utf8EncodeChar c)[k]? = some x) : continues x = decide (k ≠ 0) := by
  have hlen := (List.getElem?_eq_some_iff.1 h).1
  rw [String.utf8EncodeChar.eq_def] at h hlen
  dsimp only at h hlen
  -- one to four bytes, and any of them
  split_ifs at h hlen <;> simp only [List.length_cons, List.length_nil] at hlen <;>
    interval_cases k <;> obtain rfl := Option.some.inj h <;>
    rw [continues_ofNat (by omega), decide_eq_decide] <;> omega

theorem isBoundary_of_lt {c : Char} {b : Bytes} {i : Nat} (hpos : 0 < i) (hlt : i < c.utf8Size) :
    isBoundary (String.utf8EncodeChar c ++ b) i = false := by
  have hlen := String.length_utf8EncodeChar c
  obtain ⟨x, hx⟩ : ∃ x, (String.utf8EncodeChar c)[i]? = some x :=
    ⟨_, List.getElem?_eq_getElem (by omega)⟩
  have hcont := continues_utf8EncodeChar hx
  rw [isBoundary, List.getElem?_append_left (by omega), hx]
  simp [hcont, Nat.ne_of_gt hpos]

/-- Past a character, the boundaries are those of the text that follows. -/
theorem isBoundary_append (c : Char) (cs : List Char) (j : Nat) :
    isBoundary (String.utf8EncodeChar c ++ cs.flatMap String.utf8EncodeChar) (c.utf8Size + j) =
      isBoundary (cs.flatMap String.utf8EncodeChar) j := by
  have hpos := c.utf8Size_pos
  have hlen := String.length_utf8EncodeChar c
  rw [isBoundary, isBoundary, List.getElem?_append_right (by omega), hlen, Nat.add_sub_cancel_left,
    List.length_append, hlen]
  have hzero : (c.utf8Size + j == 0) = false := by simp; omega
  have hlast : (c.utf8Size + j == c.utf8Size + (cs.flatMap String.utf8EncodeChar).length) =
      (j == (cs.flatMap String.utf8EncodeChar).length) := by
    rw [Bool.eq_iff_iff]
    simp
  rw [hzero, hlast, Bool.false_or]
  by_cases hj : j = 0
  · -- the end of the character is the start of the next one, or the end of the text
    subst hj
    cases cs with
    | nil => rfl
    | cons d ds =>
      have hd := String.length_utf8EncodeChar d
      have hdpos := d.utf8Size_pos
      obtain ⟨x, hx⟩ : ∃ x, (String.utf8EncodeChar d)[0]? = some x :=
        ⟨_, List.getElem?_eq_getElem (by omega)⟩
      have hcont := continues_utf8EncodeChar hx
      rw [List.flatMap_cons, List.getElem?_append_left (by omega), hx]
      simp [hcont]
  · simp [hj]

/-- **A character ends at an index** just if the bytes before the index are those of the characters
with which the text begins. -/
theorem isBoundary_iff {cs : List Char} {i : Nat} :
    isBoundary (cs.flatMap String.utf8EncodeChar) i = true ↔
      ∃ ds, ds <+: cs ∧ i = (ds.flatMap String.utf8EncodeChar).length := by
  induction cs generalizing i with
  | nil => simp [isBoundary]
  | cons c cs ih =>
    have hlen := String.length_utf8EncodeChar c
    rw [List.flatMap_cons]
    constructor
    · intro h
      rcases Nat.lt_or_ge i c.utf8Size with hlt | hge
      · rcases Nat.eq_zero_or_pos i with rfl | hpos
        · exact ⟨[], List.nil_prefix, rfl⟩
        · rw [isBoundary_of_lt hpos hlt] at h
          cases h
      · obtain ⟨j, rfl⟩ := Nat.exists_eq_add_of_le hge
        rw [isBoundary_append] at h
        obtain ⟨ds, hds, rfl⟩ := ih.1 h
        refine ⟨c :: ds, List.cons_prefix_cons.2 ⟨rfl, hds⟩, ?_⟩
        rw [List.flatMap_cons, List.length_append, hlen]
    · rintro ⟨ds, hds, rfl⟩
      rcases List.prefix_cons_iff.1 hds with rfl | ⟨es, rfl, hes⟩
      · rfl
      · rw [List.flatMap_cons, List.length_append, hlen, isBoundary_append]
        exact ih.2 ⟨es, hes, rfl⟩

/-! ## The search

A search for the end of a character starts at the limit and goes back byte by byte.  Characters have
four bytes at most, so it is short, and it never runs past the start of the text. -/

theorem boundaryBefore?_eq_some {b : Bytes} {i e : Nat} (hle : e ≤ i) (he : isBoundary b e = true)
    (hlast : ∀ j, e < j → j ≤ i → isBoundary b j = false) : boundaryBefore? b i = some e := by
  induction i with
  | zero =>
    obtain rfl := Nat.le_zero.1 hle
    rw [boundaryBefore?, if_pos he]
  | succ i ih =>
    rcases Nat.eq_or_lt_of_le hle with rfl | hlt
    · rw [boundaryBefore?, if_pos he]
    · rw [boundaryBefore?, hlast (i + 1) hlt (Nat.le_refl _), if_neg (by decide)]
      exact ih (Nat.le_of_lt_succ hlt) fun j hej hji => hlast j hej (Nat.le_succ_of_le hji)

/-- The characters that fit are short of the limit, or of the text, by less than a character. -/
theorem le_length_fitChars (limit : Nat) (cs : List Char) :
    min (cs.flatMap String.utf8EncodeChar).length limit ≤
      ((fitChars limit cs).flatMap String.utf8EncodeChar).length + 3 := by
  induction cs generalizing limit with
  | nil => simp
  | cons c cs ih =>
    have hlen := String.length_utf8EncodeChar c
    have hfour := c.utf8Size_le_four
    rw [fitChars, List.flatMap_cons, List.length_append, hlen]
    split
    · have := ih (limit - c.utf8Size)
      rw [List.flatMap_cons, List.length_append, hlen]
      omega
    · rw [List.flatMap_nil, List.length_nil]
      omega

theorem prefix_encode {s t : String} (h : s.toList <+: t.toList) : encode s <+: encode t := by
  obtain ⟨l, hl⟩ := h
  rw [encode_eq_flatMap, encode_eq_flatMap t, ← hl, List.flatMap_append]
  exact List.prefix_append _ _

/-- **Going back from the limit ends after the characters that fit**, in at most three steps. -/
theorem boundaryBefore?_fit (limit : Nat) (s : String) :
    boundaryBefore? (encode s) (min (encode s).length limit) =
        some (encode (fit limit s)).length ∧
      min (encode s).length limit ≤ (encode (fit limit s)).length + 3 := by
  have hfit := longestFit_fit limit s
  have hle := (prefix_encode hfit.start).length_le
  refine ⟨boundaryBefore?_eq_some (Nat.le_min.2 ⟨hle, hfit.fits⟩) ?_ ?_, ?_⟩
  · rw [encode_eq_flatMap s, isBoundary_iff]
    exact ⟨_, hfit.start, by rw [encode_eq_flatMap]⟩
  · intro j hlt hle
    rw [Bool.eq_false_iff]
    intro hj
    rw [encode_eq_flatMap s, isBoundary_iff] at hj
    obtain ⟨ds, hds, rfl⟩ := hj
    -- what ends at a boundary within the limit is part of the longest start that fits
    have hmax := hfit.longest (String.ofList ds) (by rwa [String.toList_ofList])
      (by rw [encode_ofList]; omega)
    have := (prefix_encode hmax).length_le
    rw [encode_ofList] at this
    omega
  · have := le_length_fitChars limit s.toList
    rwa [← encode_eq_flatMap, ← encode_ofList] at this

/-- The characters that fit are the first bytes of the text. -/
theorem take_length_fit (limit : Nat) (s : String) :
    (encode s).take (encode (fit limit s)).length = encode (fit limit s) :=
  (List.prefix_iff_eq_take.1 (prefix_encode (longestFit_fit limit s).start)).symm

end Utf8

/-! ## Writing a field -/

namespace Value

/-- The value written after other bytes: a number as a word; of a text, the length of the characters
that fit, these characters, and zeros up to the capacity. -/
def append? (out : Bytes) : Value → Option Bytes
  | int n => some (out ++ Bytes.ofWord n.toUInt32)
  | text s => do
    let stop ← Utf8.boundaryBefore? (Utf8.encode s) (min (Utf8.encode s).length textCapacity)
    let chars ← (Utf8.encode s).slice? 0 stop
    let full := out ++ Bytes.ofWord (UInt32.ofNat stop) ++ chars
    some (full.resize (full.length + textCapacity - stop))

/-- Writing a value adds its bytes to those before it. -/
theorem append?_eq (out : Bytes) (v : Value) : v.append? out = some (out ++ v.encode) := by
  cases v with
  | int n => rfl
  | text s =>
    have hfits := Utf8.length_encode_fit textCapacity s
    have htake := Utf8.take_length_fit textCapacity s
    have hle : 0 + (Utf8.encode (Utf8.fit textCapacity s)).length ≤ (Utf8.encode s).length := by
      rw [Nat.zero_add, ← htake, List.length_take]
      exact Nat.min_le_right _ _
    rw [append?, (Utf8.boundaryBefore?_fit textCapacity s).1]
    simp only [Option.bind_eq_bind, Option.bind_some]
    rw [Bytes.slice?_eq hle, Bytes.slice, List.drop_zero, htake, encode]
    simp only [Option.bind_some, Option.some.injEq]
    generalize Utf8.encode (Utf8.fit textCapacity s) = chars at hfits
    rw [Bytes.resize_of_length_le (by omega), Bytes.resize_of_length_le hfits,
      Nat.add_sub_assoc hfits, Nat.add_sub_cancel_left]
    simp only [List.append_assoc]

/-- **Fields have a fixed size and lose only what does not fit.**  Writing a value keeps the bytes
before it and adds as many as its type takes; read from these, whatever follows them, is the value
itself, or of a text that is too long its longest start that fits.  A value read from any bytes is
written as the same bytes, with those that follow the characters of a text set to zero, and is read
back from them as it is. -/
theorem field_codec :
    (∀ (v : Value) (out rest : Bytes),
      v.append? out = some (out ++ v.encode) ∧ v.encode.length = v.type.size ∧
        ∃ w, v.type.decode (v.encode ++ rest) = .ok w ∧ v.Clipped w ∧ (v.Short → w = v)) ∧
    ∀ (t : FieldType) (b : Bytes) (v : Value), t.decode b = .ok v →
      v.append? [] = some v.encode ∧ v.encode.length = t.size ∧
        (∀ k, k < t.size → (t.Idle b 0 k → v.encode[k]? = some 0) ∧
          (¬ t.Idle b 0 k → v.encode[k]? = b[k]?)) ∧
        ∀ rest, t.decode (v.encode ++ rest) = .ok v := by
  refine ⟨fun v out rest => ⟨append?_eq out v, length_encode v, v.stored,
    FieldType.decode_encode v rest, clipped_iff.2 rfl, fun hs => hs.stored_eq⟩, ?_⟩
  intro t b v h
  have htype := FieldType.type_of_decode h
  have hlen : v.encode.length = t.size := by rw [length_encode, htype]
  have hb : Bytes.Blanked (t.Idle b 0) b 0 v.encode :=
    FieldType.blanked_encode (by rwa [List.drop_zero])
  refine ⟨append?_eq [] v, hlen, fun k hk => ?_, fun rest => ?_⟩
  · have hkept := hb.kept k (by omega)
    have hblank := hb.blank k (by omega)
    rw [Nat.zero_add] at hkept hblank
    exact ⟨hblank, hkept⟩
  · rw [← htype, FieldType.decode_encode, FieldType.stored_of_decode h]

/-- A field with one character, and other bytes after it. -/
def littered : Bytes := [0, 0, 0, 1, 0x78] ++ List.replicate 127 0xff

/-- The character is read from the field, and written again with zeros after it. -/
theorem field_codec_littered : FieldType.text.decode littered = .ok (text "x") ∧
    FieldType.text.decode ((text "x").encode ++ [7]) = .ok (text "x") ∧
      littered[5]? = some 0xff ∧ (text "x").encode[5]? = some 0 := by
  have hread : FieldType.text.decode littered = .ok (text "x") := by decide +kernel
  obtain ⟨-, -, hbytes, hagain⟩ := field_codec.2 .text littered (text "x") hread
  have hidle : FieldType.text.Idle littered 0 5 :=
    ⟨rfl, 1, ⟨by decide, by decide +kernel⟩, by decide, by decide⟩
  exact ⟨hread, hagain [7], by decide +kernel, (hbytes 5 (by decide)).1 hidle⟩

/-- A character of two bytes does not fit after 127 others, and is left out as a whole. -/
example : append? [7] (text (String.ofList (List.replicate 127 'x' ++ ['é']))) =
    some ([7, 0, 0, 0, 127] ++ List.replicate 127 0x78 ++ [0]) := by
  decide +kernel

end Value
end TableStore
