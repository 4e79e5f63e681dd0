import JvmCalls.Constant.Tag
import JvmCalls.Text.Hexadecimal

/-!
# Faults of class data

A `Defect` says what is structurally wrong with class data and carries the
values a diagnostic needs.  A `Fault` is the outcome of a failed read: data
that ends too early, an empty input, a wrong magic number, or a defect.  The
wording of all of them is in `Defect.message` and `Fault.message`.
-/

namespace JvmCalls

/-- What is structurally wrong with class data. -/
inductive Defect
  | truncatedCharacter (index : Nat)
  | invalidLeadByte (byte : UInt8) (index : Nat)
  | excessiveDimensions (descriptor : String) (count : Nat)
  | truncatedDescriptor (descriptor : String)
  | unterminatedClassName (descriptor : String)
  | emptyClassName (descriptor : String)
  | invalidTypeTag (tag : Char) (descriptor : String)
  | trailingFieldData (descriptor : String)
  | unopenedParameters (descriptor : String)
  | unterminatedParameters (descriptor : String)
  | trailingMethodData (descriptor : String)
  | emptyPool
  | invalidConstantTag (byte : UInt8) (index : Nat)
  | overrunningConstant (index : Nat)
  | unusableConstant (index : UInt16)
  | unexpectedConstant (index : UInt16) (actual expected : Constant.Tag)
  | invalidOpcode (code : UInt8) (offset : Nat)
  | unwidenable (mnemonic : String) (offset : Nat)
  | reversedBounds (offset : Nat) (low high : Int32)
  | negativePairCount (offset : Nat) (count : Int32)
  | excessiveOffset (offset : Nat)
  | invalidCodeLength (length : Nat)
  | repeatedCode (owner name descriptor : String)
  | trailingBytes (count : Nat) (name : String)
  | missingConstantOperand (mnemonic : String) (offset : Nat)
  deriving DecidableEq, Repr

def Defect.message : Defect → String
  | truncatedCharacter index => s!"Truncated modified UTF-8 sequence at {index}"
  | invalidLeadByte byte index =>
      s!"Invalid modified UTF-8 lead byte 0x{Hexadecimal.upper 2 byte.toNat} at {index}"
  | excessiveDimensions descriptor count =>
      s!"Descriptor '{descriptor}' has {count} array dimensions"
  | truncatedDescriptor descriptor => s!"Truncated descriptor '{descriptor}'"
  | unterminatedClassName descriptor =>
      s!"Unterminated class name in descriptor '{descriptor}'"
  | emptyClassName descriptor => s!"Empty class name in descriptor '{descriptor}'"
  | invalidTypeTag tag descriptor =>
      s!"Invalid type tag '{tag}' in descriptor '{descriptor}'"
  | trailingFieldData descriptor => s!"Trailing data in field descriptor '{descriptor}'"
  | unopenedParameters descriptor =>
      s!"Method descriptor '{descriptor}' does not start with '('"
  | unterminatedParameters descriptor =>
      s!"Unterminated parameter list in '{descriptor}'"
  | trailingMethodData descriptor => s!"Trailing data in method descriptor '{descriptor}'"
  | emptyPool => "Constant pool count is 0"
  | invalidConstantTag byte index => s!"Invalid constant pool tag {byte} at index {index}"
  | overrunningConstant index =>
      s!"Eight-byte constant at index {index} overruns the pool"
  | unusableConstant index => s!"Constant pool index {index} is not a usable entry"
  | unexpectedConstant index actual expected =>
      s!"Constant pool index {index} is {actual.name}, expected {expected.name}"
  | invalidOpcode code offset =>
      s!"Invalid opcode 0x{Hexadecimal.upper 2 code.toNat} at offset {offset}"
  | unwidenable mnemonic offset => s!"wide cannot modify {mnemonic} at offset {offset}"
  | reversedBounds offset low high =>
      s!"tableswitch at offset {offset} has low {low} > high {high}"
  | negativePairCount offset count =>
      s!"lookupswitch at offset {offset} has negative pair count {count}"
  | excessiveOffset offset => s!"Code offset {offset} exceeds u32"
  | invalidCodeLength length => s!"Invalid code length {length}"
  | repeatedCode owner name descriptor =>
      s!"Method {owner}.{name}{descriptor} has more than one Code attribute"
  | trailingBytes count name => s!"{count} trailing bytes after class {name}"
  | missingConstantOperand mnemonic offset =>
      s!"{mnemonic} at offset {offset} has no constant pool operand"

/-- The outcome of a failed read of class data. -/
inductive Fault
  | outOfBounds
  | empty
  | invalidMagic (magic : UInt32)
  | malformed (defect : Defect)
  deriving DecidableEq, Repr

def Fault.message : Fault → String
  | outOfBounds => "Out of Bound read would have occurred!"
  | empty => "Provided input was empty"
  | invalidMagic magic => s!"Invalid class file magic - 0x{Hexadecimal.upper 8 magic.toNat}"
  | malformed defect => defect.message

end JvmCalls
