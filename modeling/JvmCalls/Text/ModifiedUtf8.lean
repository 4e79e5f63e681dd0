import JvmCalls.Bytes.Cursor
import JvmCalls.Text.Utf16

/-!
# Modified UTF-8

The strings of a class file are sequences of UTF-16 units, each written alone
in one to three bytes.  The unit zero takes two bytes, so no encoded string
has a zero byte, and characters above 2^16 are written as two surrogates of
three bytes each.  Of the bytes after the first of a unit only the low six
bits are looked at.
-/

namespace JvmCalls.ModifiedUtf8

def encodeUnit (unit : UInt16) : Bytes :=
  let number := unit.toNat
  if 0 < number && number < 0x80 then
    [UInt8.ofNat number]
  else if number < 0x800 then
    [UInt8.ofNat (0xC0 + number / 0x40), UInt8.ofNat (0x80 + number % 0x40)]
  else
    [UInt8.ofNat (0xE0 + number / 0x1000), UInt8.ofNat (0x80 + number / 0x40 % 0x40),
      UInt8.ofNat (0x80 + number % 0x40)]

def encodeUnits (units : List UInt16) : Bytes :=
  units.flatMap encodeUnit

def encode (text : String) : Bytes :=
  encodeUnits (Utf16.units text.toList)

def unitOfTwo (first second : UInt8) : UInt16 :=
  UInt16.ofNat (first.toNat % 0x20 * 0x40 + second.toNat % 0x40)

def unitOfThree (first second third : UInt8) : UInt16 :=
  UInt16.ofNat
    (first.toNat % 0x10 * 0x1000 + second.toNat % 0x40 * 0x40 + third.toNat % 0x40)

/-- Prepends the units of the bytes, the last of them first, to `units`; the
first of the bytes has the given index in its string. -/
def collectUnits (index : Nat) : (bytes : Bytes) → (units : List UInt16) →
    Except Defect (List UInt16)
  | [], units => .ok units
  | first :: rest, units =>
      if first.toNat < 0x80 then
        collectUnits (index + 1) rest (first.toUInt16 :: units)
      else if 0xC0 ≤ first.toNat && first.toNat < 0xE0 then
        match rest with
        | second :: rest => collectUnits (index + 2) rest (unitOfTwo first second :: units)
        | [] => .error (.truncatedCharacter index)
      else if 0xE0 ≤ first.toNat && first.toNat < 0xF0 then
        match rest with
        | second :: third :: rest =>
            collectUnits (index + 3) rest (unitOfThree first second third :: units)
        | _ => .error (.truncatedCharacter index)
      else
        .error (.invalidLeadByte first index)

def decodeUnits (bytes : Bytes) : Except Defect (List UInt16) :=
  (collectUnits 0 bytes []).map List.reverse

/-- Whether a byte stands for the ASCII character of its number. -/
def isPlain (byte : UInt8) : Bool :=
  0 < byte.toNat && byte.toNat < 0x80

/-- The text of the bytes.  Plain bytes are their characters, which needs no
detour through units. -/
def decode (bytes : Bytes) : Except Defect String :=
  if bytes.all isPlain then
    .ok (String.ofList (bytes.map (fun byte => Char.ofNat byte.toNat)))
  else
    (decodeUnits bytes).map (fun units => String.ofList (Utf16.characters units))

/-- Reads a text of `length` bytes.  The bytes are consumed also when they are
no text. -/
def text (length : Nat) : Decoder String := do
  Decoder.ofExcept (decode (← Decoder.bytes length))

end JvmCalls.ModifiedUtf8
