import JvmCalls.Bytes.BigEndian

/-!
# Fields of an archive

The structures of an archive are sequences of fields.  Numbers are stored with
the least significant byte first, and each structure starts with a mark of four
bytes.
-/

namespace JvmCalls.Zip

/-- The number whose base-256 digits, least significant first, are `bytes`. -/
def littleEndian (bytes : Bytes) : Nat := BigEndian.value bytes.reverse

/-- A read of consecutive fields, which may come to the end of the data. -/
abbrev FieldDecoder := StateT Bytes Option

def field (count : Nat) : FieldDecoder Bytes := fun data =>
  let found := data.take count
  if found.length = count then some (found, data.drop count) else none

def number (width : Nat) : FieldDecoder Nat := do
  return littleEndian (← field width)

/-- Reads the mark at the start of a structure. -/
def expect (signature : Bytes) : FieldDecoder Unit := do
  if (← field 4) = signature then return () else failure

end JvmCalls.Zip
