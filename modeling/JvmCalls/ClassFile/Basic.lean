import JvmCalls.ClassFile.Layout
import JvmCalls.ClassFile.Method
import JvmCalls.Descriptor.MethodType
import JvmCalls.Instruction.InvokeKind

/-!
# Class files

`ClassFile.parse` reads a whole class and refuses bytes behind it.  It also
follows the constant pool index of every invocation, so that the calls of a
class that was read can be named without further faults.
-/

namespace JvmCalls

/-- A class, an interface or a module. -/
structure ClassFile where
  minorVersion : UInt16
  majorVersion : UInt16
  pool : ConstantPool
  access : ClassAccess
  name : String
  superName : Option String
  interfaces : List String
  fieldCount : Nat
  methods : List Method
  deriving DecidableEq, Repr

namespace ClassFile

/-- Fails unless the number is the one every class file starts with. -/
def checkMagic (number : UInt32) : Decoder Unit :=
  if number = classMagic then return () else throw (.invalidMagic number)

def skipField : Decoder Unit := do
  Decoder.skip 6
  skipAttributes

/-- Reads the index of a class and returns the binary name of the class. -/
def decodeClassName (pool : ConstantPool) : Decoder String := do
  return binaryName (← Decoder.ofExcept (pool.className (← Decoder.uint16)))

def decodeSuperName (pool : ConstantPool) : Decoder (Option String) := do
  return (← Decoder.ofExcept (pool.optionalClassName (← Decoder.uint16))).map binaryName

def checkEnd (name : String) : Decoder Unit := fun cursor =>
  if cursor.atEnd then
    .ok () cursor
  else
    .error (.malformed (.trailingBytes cursor.rest.length name)) cursor

def decode : Decoder ClassFile := do
  checkMagic (← Decoder.uint32)
  let minorVersion ← Decoder.uint16
  let majorVersion ← Decoder.uint16
  let pool ← ConstantPool.decode
  let access ← Decoder.uint16
  let name ← decodeClassName pool
  let superName ← decodeSuperName pool
  let interfaceCount ← Decoder.uint16
  let interfaces ← Decoder.replicate interfaceCount.toNat (decodeClassName pool)
  let fieldCount ← Decoder.uint16
  discard (Decoder.replicate fieldCount.toNat skipField)
  let methodCount ← Decoder.uint16
  let methods ← Decoder.replicate methodCount.toNat (Method.decode pool name)
  skipAttributes
  checkEnd name
  return {
    minorVersion, majorVersion, pool, access := ⟨access⟩, name, superName, interfaces,
    fieldCount := fieldCount.toNat, methods }

/-- Follows the constant pool index of an invocation.  A called method must
have a descriptor of the right form. -/
def checkInvocation (pool : ConstantPool) (instruction : Instruction) : Except Defect Unit :=
  match instruction.operand.constantIndex? with
  | none => .ok ()
  | some index =>
      if (InvokeKind.ofByte? instruction.opcode.byte).isSome then do
        let target ← pool.methodRef index
        discard (MethodType.parse target.descriptor)
      else if instruction.opcode.byte = dynamicCallByte then
        discard (pool.invokeDynamic index)
      else
        .ok ()

def checkInvocations (decoded : ClassFile) : Except Defect Unit :=
  decoded.methods.forM (fun method =>
    method.instructions.forM (checkInvocation decoded.pool))

/-- The class of a whole byte string. -/
def parse (data : Bytes) : Except Fault ClassFile := do
  if data.isEmpty then
    throw .empty
  else
    let decoded ← decode.run data
    match decoded.checkInvocations with
    | .ok () => return decoded
    | .error defect => throw (.malformed defect)

end ClassFile

end JvmCalls
