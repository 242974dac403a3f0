import TableStore.Bytes

/-!
# Bitmaps

A bitmap tells which slots of a page are in use.  Bit `i` is bit `i % 8` of byte `i / 8`, where
bit 0 is the least significant one.

## What is here

* `Bytes.bit`, `Bytes.setBit` — reading and writing a bit.
* `bit_setBit` — a written bit is read back, and all others stay as they were.
-/

set_option autoImplicit false
namespace TableStore
namespace Bytes

/-- Bit `i` of the string; bits past the end are zero. -/
def bit (b : Bytes) (i : Nat) : Bool := (b.getD (i / 8) 0).toNat.testBit (i % 8)

/-- A byte with bit `k` set or cleared. -/
def byteWithBit (x : UInt8) (k : Nat) (on : Bool) : UInt8 :=
  if on then UInt8.ofNat (x.toNat ||| 1 <<< k)
  else UInt8.ofNat (x.toNat ^^^ (x.toNat &&& 1 <<< k))

/-- The string with bit `i` set or cleared. -/
def setBit (b : Bytes) (i : Nat) (on : Bool) : Bytes :=
  b.modify (i / 8) fun x => byteWithBit x (i % 8) on

@[simp] theorem length_setBit (b : Bytes) (i : Nat) (on : Bool) :
    (b.setBit i on).length = b.length := by
  simp [setBit]

theorem testBit_byteWithBit (x : UInt8) {k : Nat} (hk : k < 8) (on : Bool) (j : Nat) :
    (byteWithBit x k on).toNat.testBit j = if j = k then on else x.toNat.testBit j := by
  have hx : x.toNat < 2 ^ 8 := x.toNat_lt
  have hp : 2 ^ k < 2 ^ 8 := Nat.pow_lt_pow_right (by decide) hk
  have ho : x.toNat ||| 2 ^ k < 2 ^ 8 := Nat.or_lt_two_pow hx hp
  have hc : x.toNat ^^^ (x.toNat &&& 2 ^ k) < 2 ^ 8 :=
    Nat.xor_lt_two_pow hx (Nat.and_lt_two_pow _ hp)
  rw [byteWithBit, Nat.one_shiftLeft]
  cases on
  · simp only [Bool.false_eq_true, ↓reduceIte, UInt8.toNat_ofNat', Nat.mod_eq_of_lt hc,
      Nat.testBit_xor, Nat.testBit_and, Nat.testBit_two_pow]
    by_cases h : j = k
    · simp [h]
    · simp [h, Ne.symm h]
  · simp only [↓reduceIte, UInt8.toNat_ofNat', Nat.mod_eq_of_lt ho, Nat.testBit_or,
      Nat.testBit_two_pow]
    by_cases h : j = k
    · simp [h]
    · simp [h, Ne.symm h]

/-- A written bit is read back, and all others stay as they were. -/
theorem bit_setBit {b : Bytes} {i : Nat} (hi : i < 8 * b.length) (on : Bool) (j : Nat) :
    (b.setBit i on).bit j = if j = i then on else b.bit j := by
  have hlt : i / 8 < b.length := by omega
  simp only [bit, setBit, List.getD_eq_getElem?_getD, List.getElem?_modify]
  by_cases hq : i / 8 = j / 8
  · have hget : b[j / 8]? = some b[i / 8] := by rw [← hq]; exact List.getElem?_eq_getElem hlt
    simp only [hq, ↓reduceIte]
    rw [hget]
    simp only [Option.map_some, Option.getD_some, Option.map_eq_map]
    rw [testBit_byteWithBit _ (Nat.mod_lt _ (by decide))]
    by_cases h : j = i
    · simp [h]
    · have : j % 8 ≠ i % 8 := by omega
      simp [h, this]
  · have h : j ≠ i := fun e => hq (e ▸ rfl)
    simp [hq, h]

end Bytes
end TableStore
