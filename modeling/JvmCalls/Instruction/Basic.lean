import JvmCalls.Instruction.Opcode

/-!
# Instructions

A decoded instruction records where it starts, how many bytes it takes, its
opcode, whether it has the wide form, and its operand.
-/

namespace JvmCalls

inductive Operand
  | empty
  | immediate (value : Int32)
  | slot (index : UInt16)
  | constant (index : UInt16)
  | branch (distance : Int32)
  | increment (slot : UInt16) (delta : Int16)
  | interfaceCall (index : UInt16) (count : UInt8)
  | arrayCreation (index : UInt16) (dimensions : UInt8)
  | tableSwitch (default low high : Int32) (distances : List Int32)
  | lookupSwitch (default : Int32) (pairs : List (Int32 × Int32))
  deriving DecidableEq, Repr

def Operand.constantIndex? : Operand → Option UInt16
  | constant index | interfaceCall index _ | arrayCreation index _ => some index
  | _ => none

@[ext]
structure Instruction where
  offset : Nat
  /-- The count of bytes, with the mark of the wide form and padding. -/
  size : Nat
  /-- In the wide form, the opcode behind the mark. -/
  opcode : Opcode
  wide : Bool
  operand : Operand
  deriving DecidableEq, Repr

namespace Instruction

def mnemonic (instruction : Instruction) : String := instruction.opcode.info.mnemonic

def category (instruction : Instruction) : Category := instruction.opcode.info.category

def flow (instruction : Instruction) : Flow := instruction.opcode.info.flow

/-- Whether the instruction calls a method, a dynamic call site included. -/
def isInvocation (instruction : Instruction) : Bool := instruction.category = .invocation

end Instruction

end JvmCalls
