import JvmCalls.Text.CodePage437
import JvmCalls.Text.Utf8

/-!
# Entry records

An archive keeps a record of each entry: its name, the method and the checksum
of its content, both sizes, and the position of the local header in front of
the content.
-/

namespace JvmCalls.Zip

structure Record where
  name : String
  storedName : Bytes
  comment : String
  isEncrypted : Bool
  usesAes : Bool
  method : Nat
  checksum : UInt32
  compressedSize : Nat
  /-- The recorded size of the content, which need not be true. -/
  size : Nat
  headerOffset : Nat
  deriving DecidableEq, Repr

namespace Record

def stored : Nat := 0

def deflated : Nat := 8

/-- The method of content whose true method an extra field tells. -/
def aesMethod : Nat := 99

/-- Names and comments are UTF-8 if the record is marked so. -/
def decodeText (isUtf8 : Bool) (text : Bytes) : String :=
  if isUtf8 then Utf8.decode text else CodePage437.decode text

end Record

end JvmCalls.Zip
