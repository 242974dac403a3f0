import TableStore.Bytes

/-!
# The CRC-32 checksum

`crc32` is the checksum of IEEE 802.3: the reflected polynomial `0xEDB88320`, with the register
complemented before and after.  It runs over the bytes from left to right, each byte's least
significant bit first.
-/

set_option autoImplicit false
namespace TableStore

/-- One bit of the division: shift, and subtract the polynomial if a one fell out. -/
def crcShift (register : UInt32) : UInt32 :=
  if register &&& 1 = 1 then (register >>> 1) ^^^ 0xEDB88320 else register >>> 1

/-- Feeds one byte. -/
def crcByte (register : UInt32) (b : UInt8) : UInt32 :=
  (List.range 8).foldl (fun r _ => crcShift r) (register ^^^ b.toUInt32)

/-- The CRC-32 of a byte string. -/
def crc32 (b : Bytes) : UInt32 := b.foldl crcByte 0xFFFFFFFF ^^^ 0xFFFFFFFF

/-- The check value of the checksum: that of the digits 1 to 9. -/
example : crc32 [0x31, 0x32, 0x33, 0x34, 0x35, 0x36, 0x37, 0x38, 0x39] = 0xCBF43926 := by
  decide +kernel

end TableStore
