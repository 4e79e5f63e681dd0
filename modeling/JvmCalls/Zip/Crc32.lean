import JvmCalls.Bytes.BigEndian

/-!
# CRC-32

The checksum of archive entries: the remainder of the content as a polynomial
over two elements, with the bits of each byte taken from the lowest up.
-/

namespace JvmCalls.Crc32

/-- The divisor, lowest power last. -/
def polynomial : UInt32 := 0xEDB88320

/-- The remainder after one more bit. -/
def shift (remainder : UInt32) : UInt32 :=
  if remainder &&& 1 = 1 then (remainder >>> 1) ^^^ polynomial else remainder >>> 1

def update (remainder : UInt32) (byte : UInt8) : UInt32 :=
  Nat.repeat shift 8 (remainder ^^^ byte.toUInt32)

def checksum (bytes : Bytes) : UInt32 :=
  bytes.foldl update 0xFFFFFFFF ^^^ 0xFFFFFFFF

end JvmCalls.Crc32
