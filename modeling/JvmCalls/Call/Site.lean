import JvmCalls.ClassFile.Basic

/-!
# Call sites

A call site is an invocation instruction with the names of the method it
calls, as the constant pool gives them.
-/

namespace JvmCalls

/-- An invocation and the method it names. -/
structure CallSite where
  offset : Nat
  kind : InvokeKind
  owner : String
  name : String
  descriptor : String
  deriving DecidableEq, Repr

namespace CallSite

/-- The call site of an instruction; instructions other than the four kinds of
invocations have none. -/
def resolve (pool : ConstantPool) (instruction : Instruction) :
    Except Defect (Option CallSite) :=
  match InvokeKind.ofByte? instruction.opcode.byte with
  | none => .ok none
  | some kind =>
      match instruction.operand.constantIndex? with
      | none =>
          .error (.missingConstantOperand instruction.mnemonic instruction.offset)
      | some index => do
          let target ← pool.methodRef index
          return some {
            offset := instruction.offset
            kind
            owner := target.owner
            name := target.name
            descriptor := target.descriptor }

end CallSite

end JvmCalls
