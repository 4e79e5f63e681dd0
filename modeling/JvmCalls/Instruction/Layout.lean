import JvmCalls.Bytes.BigEndian
import JvmCalls.Instruction.Basic

/-!
# Layouts of instructions

An `InstructionLayout` describes an instruction as it is stored: what it says,
and the bytes that say nothing.  These pad a jump table to a multiple of four
bytes from the start of the code, or fill up the operand of a call.
`InstructionLayout.encode` writes the bytes, and `InstructionLayout.Fits`
tells which layouts can stand at a position.
-/

namespace JvmCalls

namespace Operand

/-- The big-endian form of a signed number, cut to `count` bytes. -/
def encodeSigned (count : Nat) (value : Int32) : Bytes :=
  BigEndian.digits count value.toUInt32.toNat

/-- The bytes a local slot or an increment takes. -/
def slotWidth (wide : Bool) : Nat := if wide then 2 else 1

/-- The operand bytes behind an opcode.  An operand of another shape has
none. -/
def encode (wide : Bool) (ignored : Bytes) : OperandKind → Operand → Bytes
  | .int8, immediate value => encodeSigned 1 value
  | .int16, immediate value => encodeSigned 2 value
  | .uint8, immediate value => encodeSigned 1 value
  | .slot, slot index => BigEndian.digits (slotWidth wide) index.toNat
  | .constant8, constant index => BigEndian.digits 1 index.toNat
  | .constant16, constant index => BigEndian.digits 2 index.toNat
  | .branch16, branch distance => encodeSigned 2 distance
  | .branch32, branch distance => encodeSigned 4 distance
  | .increment, increment index delta =>
      BigEndian.digits (slotWidth wide) index.toNat ++
        encodeSigned (slotWidth wide) delta.toInt32
  | .interfaceCall, interfaceCall index count =>
      BigEndian.digits 2 index.toNat ++ count :: ignored
  | .dynamicCall, constant index => BigEndian.digits 2 index.toNat ++ ignored
  | .arrayCreation, arrayCreation index dimensions =>
      BigEndian.digits 2 index.toNat ++ [dimensions]
  | .tableSwitch, tableSwitch default low high distances =>
      ignored ++ encodeSigned 4 default ++ encodeSigned 4 low ++ encodeSigned 4 high ++
        distances.flatMap (encodeSigned 4)
  | .lookupSwitch, lookupSwitch default pairs =>
      ignored ++ encodeSigned 4 default ++ BigEndian.digits 4 pairs.length ++
        pairs.flatMap (fun pair => encodeSigned 4 pair.1 ++ encodeSigned 4 pair.2)
  | _, _ => []

/-- Whether a signed number fits into `count` bytes: its double lies within
the count of numbers of that size, on either side of zero. -/
def FitsSigned (count : Nat) (value : Int) : Prop :=
  -(BigEndian.capacity count : Int) ≤ 2 * value ∧ 2 * value < BigEndian.capacity count

instance (count : Nat) (value : Int) : Decidable (FitsSigned count value) :=
  inferInstanceAs (Decidable (_ ∧ _))

/-- Whether an operand can stand behind an opcode: it has the shape the opcode
asks for, its numbers fit into their bytes, and a jump table is as long as it
says. -/
def Fits (wide : Bool) : OperandKind → Operand → Prop
  | .empty, empty => True
  | .int8, immediate value => FitsSigned 1 value.toInt
  | .int16, immediate value => FitsSigned 2 value.toInt
  | .uint8, immediate value => 0 ≤ value.toInt ∧ value.toInt < 256
  | .slot, slot index => index.toNat < BigEndian.capacity (slotWidth wide)
  | .constant8, constant index => index.toNat < 256
  | .constant16, constant _ => True
  | .branch16, branch distance => FitsSigned 2 distance.toInt
  | .branch32, branch _ => True
  | .increment, increment index delta =>
      index.toNat < BigEndian.capacity (slotWidth wide) ∧ FitsSigned (slotWidth wide) delta.toInt
  | .interfaceCall, interfaceCall _ _ => True
  | .dynamicCall, constant _ => True
  | .arrayCreation, arrayCreation _ _ => True
  | .tableSwitch, tableSwitch _ low high distances =>
      low.toInt ≤ high.toInt ∧ (distances.length : Int) = high.toInt - low.toInt + 1
  | .lookupSwitch, lookupSwitch _ pairs => pairs.length < 0x80000000
  | _, _ => False

instance (wide : Bool) (kind : OperandKind) (operand : Operand) :
    Decidable (Fits wide kind operand) := by
  unfold Fits
  split <;> infer_instance

end Operand

/-- The count of bytes without meaning in an instruction whose operand starts
at `offset`. -/
def OperandKind.ignoredCount (offset : Nat) : OperandKind → Nat
  | .interfaceCall => 1
  | .dynamicCall => 2
  | .tableSwitch | .lookupSwitch => (4 - offset % 4) % 4
  | _ => 0

/-- An instruction as it is stored. -/
@[ext]
structure InstructionLayout where
  opcode : Opcode
  wide : Bool
  operand : Operand
  ignored : Bytes
  deriving DecidableEq, Repr

namespace InstructionLayout

/-- The mark of the wide form, if the instruction has it, and the opcode. -/
def head (layout : InstructionLayout) : Bytes :=
  if layout.wide then [Opcode.wideByte, layout.opcode.byte] else [layout.opcode.byte]

def encode (layout : InstructionLayout) : Bytes :=
  layout.head ++
    layout.operand.encode layout.wide layout.ignored layout.opcode.info.operand

def Fits (offset : Nat) (layout : InstructionLayout) : Prop :=
  (layout.wide = true → layout.opcode.isWidenable = true) ∧
    layout.operand.Fits layout.wide layout.opcode.info.operand ∧
    layout.ignored.length =
      layout.opcode.info.operand.ignoredCount (offset + layout.head.length)

instance (offset : Nat) (layout : InstructionLayout) : Decidable (layout.Fits offset) :=
  inferInstanceAs (Decidable (_ ∧ _ ∧ _))

/-- What an instruction says when it stands at `offset`. -/
def toInstruction (offset : Nat) (layout : InstructionLayout) : Instruction where
  offset := offset
  size := layout.encode.length
  opcode := layout.opcode
  wide := layout.wide
  operand := layout.operand

def encodeAll (layouts : List InstructionLayout) : Bytes :=
  layouts.flatMap encode

def FitsFrom : (offset : Nat) → List InstructionLayout → Prop
  | _, [] => True
  | offset, layout :: layouts =>
      layout.Fits offset ∧ FitsFrom (offset + layout.encode.length) layouts

instance decidableFitsFrom : (offset : Nat) → (layouts : List InstructionLayout) →
    Decidable (FitsFrom offset layouts)
  | _, [] => isTrue trivial
  | offset, layout :: layouts =>
      have := decidableFitsFrom (offset + layout.encode.length) layouts
      inferInstanceAs (Decidable (_ ∧ _))

/-- What instructions say when they stand one after another from `offset`
on. -/
def toInstructions : (offset : Nat) → List InstructionLayout → List Instruction
  | _, [] => []
  | offset, layout :: layouts =>
      layout.toInstruction offset :: toInstructions (offset + layout.encode.length) layouts

end InstructionLayout

end JvmCalls
