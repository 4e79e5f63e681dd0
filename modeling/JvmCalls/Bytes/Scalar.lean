import JvmCalls.Bytes.Cursor
import JvmCalls.Bytes.Source

/-!
# Scalars

The fixed-size values a class file stores, all in big-endian form.  Floating
point values are kept as their bit patterns, so that reading and writing one
loses nothing, not even the payload of a value that is not a number.
-/

namespace JvmCalls

inductive Scalar
  | uint8 (value : UInt8)
  | int8 (value : Int8)
  | uint16 (value : UInt16)
  | int16 (value : Int16)
  | uint32 (value : UInt32)
  | int32 (value : Int32)
  | uint64 (value : UInt64)
  | int64 (value : Int64)
  | float32 (bits : UInt32)
  | float64 (bits : UInt64)
  deriving DecidableEq, Repr

namespace Scalar

inductive Kind
  | uint8
  | int8
  | uint16
  | int16
  | uint32
  | int32
  | uint64
  | int64
  | float32
  | float64
  deriving DecidableEq, Repr

/-- The count of bytes a scalar of the type takes. -/
def Kind.width : Kind → Nat
  | uint8 | int8 => 1
  | uint16 | int16 => 2
  | uint32 | int32 | float32 => 4
  | uint64 | int64 | float64 => 8

def kind : Scalar → Kind
  | uint8 _ => .uint8
  | int8 _ => .int8
  | uint16 _ => .uint16
  | int16 _ => .int16
  | uint32 _ => .uint32
  | int32 _ => .int32
  | uint64 _ => .uint64
  | int64 _ => .int64
  | float32 _ => .float32
  | float64 _ => .float64

/-- The scalar of the type whose bits are the low bits of `number`. -/
def ofNat (number : Nat) : Kind → Scalar
  | .uint8 => uint8 (UInt8.ofNat number)
  | .int8 => int8 (UInt8.ofNat number).toInt8
  | .uint16 => uint16 (UInt16.ofNat number)
  | .int16 => int16 (UInt16.ofNat number).toInt16
  | .uint32 => uint32 (UInt32.ofNat number)
  | .int32 => int32 (UInt32.ofNat number).toInt32
  | .uint64 => uint64 (UInt64.ofNat number)
  | .int64 => int64 (UInt64.ofNat number).toInt64
  | .float32 => float32 (UInt32.ofNat number)
  | .float64 => float64 (UInt64.ofNat number)

def toNat : Scalar → Nat
  | uint8 value => value.toNat
  | int8 value => value.toUInt8.toNat
  | uint16 value => value.toNat
  | int16 value => value.toUInt16.toNat
  | uint32 value => value.toNat
  | int32 value => value.toUInt32.toNat
  | uint64 value => value.toNat
  | int64 value => value.toUInt64.toNat
  | float32 bits => bits.toNat
  | float64 bits => bits.toNat

def encode (scalar : Scalar) : Bytes :=
  BigEndian.digits scalar.kind.width scalar.toNat

def decode (kind : Kind) : Decoder Scalar := do
  return ofNat (← Decoder.number kind.width) kind

/-- The scalar of the type at `offset` and the offset behind it. -/
def readAt? (kind : Kind) (data : Bytes) (offset : Nat) : Option (Scalar × Nat) :=
  (slice? data offset kind.width).map (fun bytes =>
    (ofNat (BigEndian.value bytes) kind, offset + kind.width))

theorem ofNat_toNat (scalar : Scalar) : ofNat scalar.toNat scalar.kind = scalar := by
  cases scalar <;> simp [ofNat, toNat, kind]

@[simp]
theorem length_encode (scalar : Scalar) : scalar.encode.length = scalar.kind.width := by
  simp [encode]

end Scalar

end JvmCalls
