import JvmCalls.Bytes.BigEndian

/-!
# Reading bits

Compressed data is a string of bits, taken from each byte from the lowest bit
up.  Numbers are written lowest bit first.
-/

namespace JvmCalls

/-- A position in a string of bits. -/
structure BitReader where
  rest : Bytes
  used : Nat
  deriving DecidableEq, Repr

/-- A read of bits, which may come to the end of the data. -/
abbrev BitDecoder := StateT BitReader Option

namespace BitReader

def ofBytes (bytes : Bytes) : BitReader := { rest := bytes, used := 0 }

def bit : BitDecoder Nat := fun reader =>
  match reader.rest with
  | [] => none
  | byte :: rest =>
      let value := byte.toNat >>> reader.used % 2
      if reader.used < 7 then
        some (value, { reader with used := reader.used + 1 })
      else
        some (value, { rest, used := 0 })

def bits : (count : Nat) → BitDecoder Nat
  | 0 => return 0
  | count + 1 => do
      let low ← bit
      return low + 2 * (← bits count)

/-- Skips the bits up to the next whole byte. -/
def align : BitDecoder Unit := fun reader =>
  some ((), if reader.used = 0 then reader else { rest := reader.rest.drop 1, used := 0 })

/-- The next `count` whole bytes, read at a byte boundary. -/
def bytes (count : Nat) : BitDecoder Bytes := fun reader =>
  let found := reader.rest.take count
  if found.length = count then
    some (found, { reader with rest := reader.rest.drop count })
  else
    none

/-- A bound on the count of bits that are left. -/
def bound (reader : BitReader) : Nat := 8 * reader.rest.length

end BitReader

end JvmCalls
