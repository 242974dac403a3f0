/-!
# Byte strings

Pages, files and the components of a path are strings of bytes.

## What is here

* `Bytes` — a list of bytes, with `Bytes.zeros` and `Bytes.resize`, which pads with zeros.
* `Bytes.slice`, `Bytes.overwrite` — reading and writing at an offset.  Writing past the end first
  fills the gap with zeros, and `slice_overwrite` reads back what was written.
* `Bytes.ofWord`, `Bytes.word?` — 32-bit words, most significant byte first; `word?_ofWord` reads back
  what was written.
-/

set_option autoImplicit false
namespace TableStore

/-- A string of bytes. -/
abbrev Bytes := List UInt8

namespace Bytes

/-- `n` zero bytes. -/
def zeros (n : Nat) : Bytes := List.replicate n 0

@[simp] theorem length_zeros (n : Nat) : (zeros n).length = n := by simp [zeros]

/-- The first `n` bytes, padded with zeros if there are fewer. -/
def resize (b : Bytes) (n : Nat) : Bytes := b.take n ++ zeros (n - b.length)

@[simp] theorem length_resize (b : Bytes) (n : Nat) : (b.resize n).length = n := by
  simp only [resize, List.length_append, List.length_take, length_zeros]
  omega

theorem resize_of_length_eq {b : Bytes} {n : Nat} (h : b.length = n) : b.resize n = b := by
  subst h
  simp [resize, zeros]

/-! ## Reading and writing at an offset -/

/-- The `n` bytes from `start` on, fewer if the string ends before. -/
def slice (b : Bytes) (start n : Nat) : Bytes := (b.drop start).take n

/-- `b` with `patch` written at `start`; a gap before `start` is filled with zeros. -/
def overwrite (b : Bytes) (start : Nat) (patch : Bytes) : Bytes :=
  b.resize start ++ patch ++ b.drop (start + patch.length)

theorem length_overwrite (b : Bytes) (start : Nat) (patch : Bytes) :
    (b.overwrite start patch).length = max b.length (start + patch.length) := by
  simp only [overwrite, List.length_append, length_resize, List.length_drop]
  omega

/-- What was written is read back. -/
theorem slice_overwrite (b : Bytes) (start : Nat) (patch : Bytes) :
    (b.overwrite start patch).slice start patch.length = patch := by
  simp [slice, overwrite]

/-! ## Words -/

/-- The four bytes of a word, most significant first. -/
def ofWord (w : UInt32) : Bytes :=
  [(w >>> 24).toUInt8, (w >>> 16).toUInt8, (w >>> 8).toUInt8, w.toUInt8]

@[simp] theorem length_ofWord (w : UInt32) : (ofWord w).length = 4 := rfl

/-- The word in the first four bytes, most significant first. -/
def word? : Bytes → Option UInt32
  | a :: b :: c :: d :: _ =>
    some (a.toUInt32 <<< 24 ||| b.toUInt32 <<< 16 ||| c.toUInt32 <<< 8 ||| d.toUInt32)
  | _ => none

/-- A word is read back from its bytes, whatever follows them. -/
theorem word?_ofWord (w : UInt32) (rest : Bytes) : word? (ofWord w ++ rest) = some w := by
  simp only [ofWord, List.cons_append, List.nil_append, word?, Option.some.injEq]
  apply UInt32.toNat_inj.1
  have h24 : (24 : UInt32).toNat % 32 = 24 := rfl
  have h16 : (16 : UInt32).toNat % 32 = 16 := rfl
  have h8 : (8 : UInt32).toNat % 32 = 8 := rfl
  simp only [UInt32.toNat_or, UInt32.toNat_shiftLeft, UInt8.toNat_toUInt32, UInt32.toNat_toUInt8,
    UInt32.toNat_shiftRight, h24, h16, h8]
  refine Nat.eq_of_testBit_eq fun i => ?_
  simp only [Nat.testBit_or, Nat.testBit_mod_two_pow, Nat.testBit_shiftLeft, Nat.testBit_shiftRight]
  rcases Nat.lt_or_ge i 32 with h | h
  · by_cases i8 : i < 8
    · simp [i8, show ¬ 8 ≤ i by omega, show ¬ 16 ≤ i by omega, show ¬ 24 ≤ i by omega]
    · by_cases i16 : i < 16
      · simp [h, i8, show 8 + (i - 8) = i by omega, show i - 8 < 8 by omega,
          show 8 ≤ i by omega, show ¬ 16 ≤ i by omega, show ¬ 24 ≤ i by omega]
      · by_cases i24 : i < 24
        · simp [h, i8, show 16 + (i - 16) = i by omega, show i - 16 < 8 by omega,
            show ¬ i - 8 < 8 by omega, show 16 ≤ i by omega, show ¬ 24 ≤ i by omega]
        · simp [h, i8, show 24 + (i - 24) = i by omega, show i - 24 < 8 by omega,
            show ¬ i - 8 < 8 by omega, show ¬ i - 16 < 8 by omega, show 24 ≤ i by omega]
  · have : w.toNat.testBit i = false :=
      Nat.testBit_lt_two_pow (Nat.lt_of_lt_of_le w.toNat_lt (Nat.pow_le_pow_right (by decide) h))
    simp [this, show ¬ i < 32 by omega, show ¬ i < 8 by omega]

end Bytes
end TableStore
