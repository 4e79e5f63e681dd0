/-!
# Opcodes

The first byte of an instruction selects what it does and how its operand is
laid out.  Bytes from 0x00 to 0xC9 are assigned, one after another without a
gap, so an `Opcode` is a byte below that bound and `Opcode.info` looks its
description up in a table.
-/

namespace JvmCalls

/-- The layout of the operand bytes behind an opcode. -/
inductive OperandKind
  | empty
  | int8
  | int16
  | uint8
  | slot
  | constant8
  | constant16
  | branch16
  | branch32
  | increment
  | interfaceCall
  | dynamicCall
  | arrayCreation
  | tableSwitch
  | lookupSwitch
  | wide
  deriving DecidableEq, Repr

inductive Category
  | constant
  | loadStore
  | array
  | stack
  | arithmetic
  | conversion
  | comparison
  | controlFlow
  | field
  | invocation
  | object
  | synchronization
  | misc
  deriving DecidableEq, Repr

inductive Flow
  | sequential
  | conditionalBranch
  | unconditionalBranch
  | switch
  | call
  | exit
  | throw
  | subroutine
  deriving DecidableEq, Repr

structure OpcodeInfo where
  mnemonic : String
  operand : OperandKind
  category : Category
  flow : Flow
  deriving DecidableEq, Repr

/-- An assigned opcode. -/
@[ext]
structure Opcode where
  byte : UInt8
  assigned : byte.toNat < 0xCA
  deriving DecidableEq, Repr

namespace Opcode

def ofByte? (byte : UInt8) : Option Opcode :=
  if assigned : byte.toNat < 0xCA then some { byte, assigned } else none

/-- The descriptions of all opcodes in ascending order. -/
def table : Array OpcodeInfo :=
  #[
    ⟨"nop", .empty, .misc, .sequential⟩,
    ⟨"aconst_null", .empty, .constant, .sequential⟩,
    ⟨"iconst_m1", .empty, .constant, .sequential⟩,
    ⟨"iconst_0", .empty, .constant, .sequential⟩,
    ⟨"iconst_1", .empty, .constant, .sequential⟩,
    ⟨"iconst_2", .empty, .constant, .sequential⟩,
    ⟨"iconst_3", .empty, .constant, .sequential⟩,
    ⟨"iconst_4", .empty, .constant, .sequential⟩,
    ⟨"iconst_5", .empty, .constant, .sequential⟩,
    ⟨"lconst_0", .empty, .constant, .sequential⟩,
    ⟨"lconst_1", .empty, .constant, .sequential⟩,
    ⟨"fconst_0", .empty, .constant, .sequential⟩,
    ⟨"fconst_1", .empty, .constant, .sequential⟩,
    ⟨"fconst_2", .empty, .constant, .sequential⟩,
    ⟨"dconst_0", .empty, .constant, .sequential⟩,
    ⟨"dconst_1", .empty, .constant, .sequential⟩,
    ⟨"bipush", .int8, .constant, .sequential⟩,
    ⟨"sipush", .int16, .constant, .sequential⟩,
    ⟨"ldc", .constant8, .constant, .sequential⟩,
    ⟨"ldc_w", .constant16, .constant, .sequential⟩,
    ⟨"ldc2_w", .constant16, .constant, .sequential⟩,
    ⟨"iload", .slot, .loadStore, .sequential⟩,
    ⟨"lload", .slot, .loadStore, .sequential⟩,
    ⟨"fload", .slot, .loadStore, .sequential⟩,
    ⟨"dload", .slot, .loadStore, .sequential⟩,
    ⟨"aload", .slot, .loadStore, .sequential⟩,
    ⟨"iload_0", .empty, .loadStore, .sequential⟩,
    ⟨"iload_1", .empty, .loadStore, .sequential⟩,
    ⟨"iload_2", .empty, .loadStore, .sequential⟩,
    ⟨"iload_3", .empty, .loadStore, .sequential⟩,
    ⟨"lload_0", .empty, .loadStore, .sequential⟩,
    ⟨"lload_1", .empty, .loadStore, .sequential⟩,
    ⟨"lload_2", .empty, .loadStore, .sequential⟩,
    ⟨"lload_3", .empty, .loadStore, .sequential⟩,
    ⟨"fload_0", .empty, .loadStore, .sequential⟩,
    ⟨"fload_1", .empty, .loadStore, .sequential⟩,
    ⟨"fload_2", .empty, .loadStore, .sequential⟩,
    ⟨"fload_3", .empty, .loadStore, .sequential⟩,
    ⟨"dload_0", .empty, .loadStore, .sequential⟩,
    ⟨"dload_1", .empty, .loadStore, .sequential⟩,
    ⟨"dload_2", .empty, .loadStore, .sequential⟩,
    ⟨"dload_3", .empty, .loadStore, .sequential⟩,
    ⟨"aload_0", .empty, .loadStore, .sequential⟩,
    ⟨"aload_1", .empty, .loadStore, .sequential⟩,
    ⟨"aload_2", .empty, .loadStore, .sequential⟩,
    ⟨"aload_3", .empty, .loadStore, .sequential⟩,
    ⟨"iaload", .empty, .array, .sequential⟩,
    ⟨"laload", .empty, .array, .sequential⟩,
    ⟨"faload", .empty, .array, .sequential⟩,
    ⟨"daload", .empty, .array, .sequential⟩,
    ⟨"aaload", .empty, .array, .sequential⟩,
    ⟨"baload", .empty, .array, .sequential⟩,
    ⟨"caload", .empty, .array, .sequential⟩,
    ⟨"saload", .empty, .array, .sequential⟩,
    ⟨"istore", .slot, .loadStore, .sequential⟩,
    ⟨"lstore", .slot, .loadStore, .sequential⟩,
    ⟨"fstore", .slot, .loadStore, .sequential⟩,
    ⟨"dstore", .slot, .loadStore, .sequential⟩,
    ⟨"astore", .slot, .loadStore, .sequential⟩,
    ⟨"istore_0", .empty, .loadStore, .sequential⟩,
    ⟨"istore_1", .empty, .loadStore, .sequential⟩,
    ⟨"istore_2", .empty, .loadStore, .sequential⟩,
    ⟨"istore_3", .empty, .loadStore, .sequential⟩,
    ⟨"lstore_0", .empty, .loadStore, .sequential⟩,
    ⟨"lstore_1", .empty, .loadStore, .sequential⟩,
    ⟨"lstore_2", .empty, .loadStore, .sequential⟩,
    ⟨"lstore_3", .empty, .loadStore, .sequential⟩,
    ⟨"fstore_0", .empty, .loadStore, .sequential⟩,
    ⟨"fstore_1", .empty, .loadStore, .sequential⟩,
    ⟨"fstore_2", .empty, .loadStore, .sequential⟩,
    ⟨"fstore_3", .empty, .loadStore, .sequential⟩,
    ⟨"dstore_0", .empty, .loadStore, .sequential⟩,
    ⟨"dstore_1", .empty, .loadStore, .sequential⟩,
    ⟨"dstore_2", .empty, .loadStore, .sequential⟩,
    ⟨"dstore_3", .empty, .loadStore, .sequential⟩,
    ⟨"astore_0", .empty, .loadStore, .sequential⟩,
    ⟨"astore_1", .empty, .loadStore, .sequential⟩,
    ⟨"astore_2", .empty, .loadStore, .sequential⟩,
    ⟨"astore_3", .empty, .loadStore, .sequential⟩,
    ⟨"iastore", .empty, .array, .sequential⟩,
    ⟨"lastore", .empty, .array, .sequential⟩,
    ⟨"fastore", .empty, .array, .sequential⟩,
    ⟨"dastore", .empty, .array, .sequential⟩,
    ⟨"aastore", .empty, .array, .sequential⟩,
    ⟨"bastore", .empty, .array, .sequential⟩,
    ⟨"castore", .empty, .array, .sequential⟩,
    ⟨"sastore", .empty, .array, .sequential⟩,
    ⟨"pop", .empty, .stack, .sequential⟩,
    ⟨"pop2", .empty, .stack, .sequential⟩,
    ⟨"dup", .empty, .stack, .sequential⟩,
    ⟨"dup_x1", .empty, .stack, .sequential⟩,
    ⟨"dup_x2", .empty, .stack, .sequential⟩,
    ⟨"dup2", .empty, .stack, .sequential⟩,
    ⟨"dup2_x1", .empty, .stack, .sequential⟩,
    ⟨"dup2_x2", .empty, .stack, .sequential⟩,
    ⟨"swap", .empty, .stack, .sequential⟩,
    ⟨"iadd", .empty, .arithmetic, .sequential⟩,
    ⟨"ladd", .empty, .arithmetic, .sequential⟩,
    ⟨"fadd", .empty, .arithmetic, .sequential⟩,
    ⟨"dadd", .empty, .arithmetic, .sequential⟩,
    ⟨"isub", .empty, .arithmetic, .sequential⟩,
    ⟨"lsub", .empty, .arithmetic, .sequential⟩,
    ⟨"fsub", .empty, .arithmetic, .sequential⟩,
    ⟨"dsub", .empty, .arithmetic, .sequential⟩,
    ⟨"imul", .empty, .arithmetic, .sequential⟩,
    ⟨"lmul", .empty, .arithmetic, .sequential⟩,
    ⟨"fmul", .empty, .arithmetic, .sequential⟩,
    ⟨"dmul", .empty, .arithmetic, .sequential⟩,
    ⟨"idiv", .empty, .arithmetic, .sequential⟩,
    ⟨"ldiv", .empty, .arithmetic, .sequential⟩,
    ⟨"fdiv", .empty, .arithmetic, .sequential⟩,
    ⟨"ddiv", .empty, .arithmetic, .sequential⟩,
    ⟨"irem", .empty, .arithmetic, .sequential⟩,
    ⟨"lrem", .empty, .arithmetic, .sequential⟩,
    ⟨"frem", .empty, .arithmetic, .sequential⟩,
    ⟨"drem", .empty, .arithmetic, .sequential⟩,
    ⟨"ineg", .empty, .arithmetic, .sequential⟩,
    ⟨"lneg", .empty, .arithmetic, .sequential⟩,
    ⟨"fneg", .empty, .arithmetic, .sequential⟩,
    ⟨"dneg", .empty, .arithmetic, .sequential⟩,
    ⟨"ishl", .empty, .arithmetic, .sequential⟩,
    ⟨"lshl", .empty, .arithmetic, .sequential⟩,
    ⟨"ishr", .empty, .arithmetic, .sequential⟩,
    ⟨"lshr", .empty, .arithmetic, .sequential⟩,
    ⟨"iushr", .empty, .arithmetic, .sequential⟩,
    ⟨"lushr", .empty, .arithmetic, .sequential⟩,
    ⟨"iand", .empty, .arithmetic, .sequential⟩,
    ⟨"land", .empty, .arithmetic, .sequential⟩,
    ⟨"ior", .empty, .arithmetic, .sequential⟩,
    ⟨"lor", .empty, .arithmetic, .sequential⟩,
    ⟨"ixor", .empty, .arithmetic, .sequential⟩,
    ⟨"lxor", .empty, .arithmetic, .sequential⟩,
    ⟨"iinc", .increment, .arithmetic, .sequential⟩,
    ⟨"i2l", .empty, .conversion, .sequential⟩,
    ⟨"i2f", .empty, .conversion, .sequential⟩,
    ⟨"i2d", .empty, .conversion, .sequential⟩,
    ⟨"l2i", .empty, .conversion, .sequential⟩,
    ⟨"l2f", .empty, .conversion, .sequential⟩,
    ⟨"l2d", .empty, .conversion, .sequential⟩,
    ⟨"f2i", .empty, .conversion, .sequential⟩,
    ⟨"f2l", .empty, .conversion, .sequential⟩,
    ⟨"f2d", .empty, .conversion, .sequential⟩,
    ⟨"d2i", .empty, .conversion, .sequential⟩,
    ⟨"d2l", .empty, .conversion, .sequential⟩,
    ⟨"d2f", .empty, .conversion, .sequential⟩,
    ⟨"i2b", .empty, .conversion, .sequential⟩,
    ⟨"i2c", .empty, .conversion, .sequential⟩,
    ⟨"i2s", .empty, .conversion, .sequential⟩,
    ⟨"lcmp", .empty, .comparison, .sequential⟩,
    ⟨"fcmpl", .empty, .comparison, .sequential⟩,
    ⟨"fcmpg", .empty, .comparison, .sequential⟩,
    ⟨"dcmpl", .empty, .comparison, .sequential⟩,
    ⟨"dcmpg", .empty, .comparison, .sequential⟩,
    ⟨"ifeq", .branch16, .controlFlow, .conditionalBranch⟩,
    ⟨"ifne", .branch16, .controlFlow, .conditionalBranch⟩,
    ⟨"iflt", .branch16, .controlFlow, .conditionalBranch⟩,
    ⟨"ifge", .branch16, .controlFlow, .conditionalBranch⟩,
    ⟨"ifgt", .branch16, .controlFlow, .conditionalBranch⟩,
    ⟨"ifle", .branch16, .controlFlow, .conditionalBranch⟩,
    ⟨"if_icmpeq", .branch16, .controlFlow, .conditionalBranch⟩,
    ⟨"if_icmpne", .branch16, .controlFlow, .conditionalBranch⟩,
    ⟨"if_icmplt", .branch16, .controlFlow, .conditionalBranch⟩,
    ⟨"if_icmpge", .branch16, .controlFlow, .conditionalBranch⟩,
    ⟨"if_icmpgt", .branch16, .controlFlow, .conditionalBranch⟩,
    ⟨"if_icmple", .branch16, .controlFlow, .conditionalBranch⟩,
    ⟨"if_acmpeq", .branch16, .controlFlow, .conditionalBranch⟩,
    ⟨"if_acmpne", .branch16, .controlFlow, .conditionalBranch⟩,
    ⟨"goto", .branch16, .controlFlow, .unconditionalBranch⟩,
    ⟨"jsr", .branch16, .controlFlow, .subroutine⟩,
    ⟨"ret", .slot, .controlFlow, .subroutine⟩,
    ⟨"tableswitch", .tableSwitch, .controlFlow, .switch⟩,
    ⟨"lookupswitch", .lookupSwitch, .controlFlow, .switch⟩,
    ⟨"ireturn", .empty, .controlFlow, .exit⟩,
    ⟨"lreturn", .empty, .controlFlow, .exit⟩,
    ⟨"freturn", .empty, .controlFlow, .exit⟩,
    ⟨"dreturn", .empty, .controlFlow, .exit⟩,
    ⟨"areturn", .empty, .controlFlow, .exit⟩,
    ⟨"return", .empty, .controlFlow, .exit⟩,
    ⟨"getstatic", .constant16, .field, .sequential⟩,
    ⟨"putstatic", .constant16, .field, .sequential⟩,
    ⟨"getfield", .constant16, .field, .sequential⟩,
    ⟨"putfield", .constant16, .field, .sequential⟩,
    ⟨"invokevirtual", .constant16, .invocation, .call⟩,
    ⟨"invokespecial", .constant16, .invocation, .call⟩,
    ⟨"invokestatic", .constant16, .invocation, .call⟩,
    ⟨"invokeinterface", .interfaceCall, .invocation, .call⟩,
    ⟨"invokedynamic", .dynamicCall, .invocation, .call⟩,
    ⟨"new", .constant16, .object, .sequential⟩,
    ⟨"newarray", .uint8, .array, .sequential⟩,
    ⟨"anewarray", .constant16, .array, .sequential⟩,
    ⟨"arraylength", .empty, .array, .sequential⟩,
    ⟨"athrow", .empty, .controlFlow, .throw⟩,
    ⟨"checkcast", .constant16, .object, .sequential⟩,
    ⟨"instanceof", .constant16, .object, .sequential⟩,
    ⟨"monitorenter", .empty, .synchronization, .sequential⟩,
    ⟨"monitorexit", .empty, .synchronization, .sequential⟩,
    ⟨"wide", .wide, .misc, .sequential⟩,
    ⟨"multianewarray", .arrayCreation, .array, .sequential⟩,
    ⟨"ifnull", .branch16, .controlFlow, .conditionalBranch⟩,
    ⟨"ifnonnull", .branch16, .controlFlow, .conditionalBranch⟩,
    ⟨"goto_w", .branch32, .controlFlow, .unconditionalBranch⟩,
    ⟨"jsr_w", .branch32, .controlFlow, .subroutine⟩]

theorem size_table : table.size = 0xCA := by decide +kernel

def info (opcode : Opcode) : OpcodeInfo :=
  have inside : opcode.byte.toNat < table.size := by
    rw [size_table]
    exact opcode.assigned
  table[opcode.byte.toNat]

/-- Whether an opcode has a wide form: those that name a local slot have one. -/
def isWidenable (opcode : Opcode) : Bool :=
  opcode.info.operand = .slot || opcode.info.operand = .increment

def wideByte : UInt8 := 0xC4

theorem ofByte?_byte (opcode : Opcode) : ofByte? opcode.byte = some opcode := by
  simp [ofByte?, opcode.assigned]

end Opcode

end JvmCalls
