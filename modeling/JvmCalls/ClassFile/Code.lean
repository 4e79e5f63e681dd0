import JvmCalls.Constant.Pool
import JvmCalls.Instruction.Decode

/-!
# Method bodies

The `Code` attribute of a method holds its limits, its instructions and the
table of its exception handlers.  Attributes in general are skipped by their
recorded lengths.
-/

namespace JvmCalls

def skipAttribute : Decoder Unit := do
  Decoder.skip 2
  let length ← Decoder.uint32
  Decoder.skip length.toNat

def skipAttributes : Decoder Unit := do
  let count ← Decoder.uint16
  discard (Decoder.replicate count.toNat skipAttribute)

/-- A range of code and where control goes on an exception in it. -/
structure Handler where
  start : UInt16
  finish : UInt16
  target : UInt16
  catchType : Option String
  deriving DecidableEq, Repr

/-- The internal name of a class, where index zero stands for no class. -/
def ConstantPool.optionalClassName (pool : ConstantPool) (index : UInt16) :
    Except Defect (Option String) :=
  if index = 0 then .ok none else some <$> pool.className index

def Handler.decode (pool : ConstantPool) : Decoder Handler := do
  let start ← Decoder.uint16
  let finish ← Decoder.uint16
  let target ← Decoder.uint16
  let catchType ← Decoder.ofExcept (pool.optionalClassName (← Decoder.uint16))
  return { start, finish, target, catchType }

structure Code where
  maxStack : UInt16
  maxLocals : UInt16
  length : Nat
  instructions : List Instruction
  handlers : List Handler
  deriving DecidableEq, Repr

namespace Code

/-- The most bytes the instructions of a method may take. -/
def maxLength : Nat := 65535

/-- The instructions of `code`, as a read that does not move. -/
def instructionsOf (code : Bytes) : Decoder (List Instruction) :=
  match Instruction.decodeAll code with
  | .ok instructions => return instructions
  | .error fault => throw fault

def decode (pool : ConstantPool) : Decoder Code := do
  let maxStack ← Decoder.uint16
  let maxLocals ← Decoder.uint16
  let length := (← Decoder.uint32).toNat
  if length = 0 || maxLength < length then
    Decoder.malformed (.invalidCodeLength length)
  else
    let instructions ← instructionsOf (← Decoder.bytes length)
    let handlerCount ← Decoder.uint16
    let handlers ← Decoder.replicate handlerCount.toNat (Handler.decode pool)
    skipAttributes
    return { maxStack, maxLocals, length, instructions, handlers }

end Code

end JvmCalls
