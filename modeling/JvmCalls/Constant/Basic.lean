import JvmCalls.Constant.Tag
import JvmCalls.Text.ModifiedUtf8

/-!
# Constants

An entry of the constant pool: a tag byte and fields of fixed sizes, except
for text, which carries its length.  `Constant.encode` writes the layout that
`Constant.decode` reads.
-/

namespace JvmCalls

/-- A constant.  Numbers other than literals are indices into the pool. -/
inductive Constant
  | utf8 (text : String)
  | integer (value : Int32)
  | float (bits : UInt32)
  | long (value : Int64)
  | double (bits : UInt64)
  | classRef (name : UInt16)
  | string (text : UInt16)
  | fieldRef (owner nameAndType : UInt16)
  | methodRef (owner nameAndType : UInt16)
  | interfaceMethodRef (owner nameAndType : UInt16)
  | nameAndType (name descriptor : UInt16)
  | methodHandle (kind : UInt8) (reference : UInt16)
  | methodType (descriptor : UInt16)
  | dynamic (bootstrap nameAndType : UInt16)
  | invokeDynamic (bootstrap nameAndType : UInt16)
  | moduleRef (name : UInt16)
  | packageRef (name : UInt16)
  deriving DecidableEq, Repr

namespace Constant

def tag : Constant → Tag
  | utf8 _ => .utf8
  | integer _ => .integer
  | float _ => .float
  | long _ => .long
  | double _ => .double
  | classRef _ => .classRef
  | string _ => .string
  | fieldRef .. => .fieldRef
  | methodRef .. => .methodRef
  | interfaceMethodRef .. => .interfaceMethodRef
  | nameAndType .. => .nameAndType
  | methodHandle .. => .methodHandle
  | methodType _ => .methodType
  | dynamic .. => .dynamic
  | invokeDynamic .. => .invokeDynamic
  | moduleRef _ => .moduleRef
  | packageRef _ => .packageRef

/-- Whether the constant takes two slots of the pool. -/
def isWide : Constant → Bool
  | long _ | double _ => true
  | _ => false

def encodeIndex (index : UInt16) : Bytes :=
  BigEndian.digits 2 index.toNat

/-- The fields of a constant.  The length of a text is stored modulo 2^16. -/
def encodeFields : Constant → Bytes
  | utf8 text =>
      let encoded := ModifiedUtf8.encode text
      BigEndian.digits 2 encoded.length ++ encoded
  | integer value => BigEndian.digits 4 value.toUInt32.toNat
  | float bits => BigEndian.digits 4 bits.toNat
  | long value => BigEndian.digits 8 value.toUInt64.toNat
  | double bits => BigEndian.digits 8 bits.toNat
  | classRef index | string index | methodType index | moduleRef index | packageRef index =>
      encodeIndex index
  | fieldRef first second | methodRef first second | interfaceMethodRef first second
  | nameAndType first second | dynamic first second | invokeDynamic first second =>
      encodeIndex first ++ encodeIndex second
  | methodHandle kind reference => kind :: encodeIndex reference

def encode (constant : Constant) : Bytes :=
  constant.tag.code :: constant.encodeFields

def decodeIndices (build : UInt16 → UInt16 → Constant) : Decoder Constant := do
  let first ← Decoder.uint16
  let second ← Decoder.uint16
  return build first second

def decodeFields : Tag → Decoder Constant
  | .utf8 => do
      let length ← Decoder.uint16
      return utf8 (← ModifiedUtf8.text length.toNat)
  | .integer => do return integer (← Decoder.int32)
  | .float => do return float (← Decoder.uint32)
  | .long => do return long (← Decoder.int64)
  | .double => do return double (← Decoder.uint64)
  | .classRef => do return classRef (← Decoder.uint16)
  | .string => do return string (← Decoder.uint16)
  | .fieldRef => decodeIndices fieldRef
  | .methodRef => decodeIndices methodRef
  | .interfaceMethodRef => decodeIndices interfaceMethodRef
  | .nameAndType => decodeIndices nameAndType
  | .methodHandle => do
      let kind ← Decoder.uint8
      return methodHandle kind (← Decoder.uint16)
  | .methodType => do return methodType (← Decoder.uint16)
  | .dynamic => decodeIndices dynamic
  | .invokeDynamic => decodeIndices invokeDynamic
  | .moduleRef => do return moduleRef (← Decoder.uint16)
  | .packageRef => do return packageRef (← Decoder.uint16)

/-- Reads the constant that goes to slot `index`. -/
def decode (index : Nat) : Decoder Constant := do
  let byte ← Decoder.uint8
  match Tag.ofCode? byte with
  | some tag => decodeFields tag
  | none => Decoder.malformed (.invalidConstantTag byte index)

end Constant

end JvmCalls
