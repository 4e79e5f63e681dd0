/-!
# UTF-16

Class files store text by UTF-16 units.  `Utf16.units` splits characters into
units; `Utf16.characters` joins a high surrogate with the low surrogate behind
it and reads every other surrogate as the replacement character.
-/

namespace JvmCalls.Utf16

/-- The character that stands for text that cannot be decoded. -/
def replacement : Char := '\uFFFD'

/-- The units of one character: one below 2^16, a surrogate pair above. -/
def unitsOfChar (character : Char) : List UInt16 :=
  if character.toNat < 0x10000 then
    [UInt16.ofNat character.toNat]
  else
    [UInt16.ofNat (0xD800 + (character.toNat - 0x10000) / 0x400),
      UInt16.ofNat (0xDC00 + (character.toNat - 0x10000) % 0x400)]

def units (text : List Char) : List UInt16 :=
  text.flatMap unitsOfChar

/-- Whether the unit is the first of a surrogate pair. -/
def isHigh (unit : UInt16) : Bool :=
  0xD800 ≤ unit.toNat && unit.toNat < 0xDC00

def isLow (unit : UInt16) : Bool :=
  0xDC00 ≤ unit.toNat && unit.toNat < 0xE000

def pair (high low : UInt16) : Char :=
  Char.ofNat (0x10000 + (high.toNat - 0xD800) * 0x400 + (low.toNat - 0xDC00))

/-- Prepends the characters of the units, the last of them first, to `text`. -/
def collect : (units : List UInt16) → (text : List Char) → List Char
  | [], text => text
  | [unit], text =>
      (if isHigh unit || isLow unit then replacement else Char.ofNat unit.toNat) :: text
  | unit :: next :: rest, text =>
      if isHigh unit && isLow next then
        collect rest (pair unit next :: text)
      else if isHigh unit || isLow unit then
        collect (next :: rest) (replacement :: text)
      else
        collect (next :: rest) (Char.ofNat unit.toNat :: text)

def characters (units : List UInt16) : List Char :=
  (collect units []).reverse

end JvmCalls.Utf16
